import SharedClipboard.Proofs.Session.Question
import Mathlib.Data.List.Induction

/-!
# Admission is final

A session that has admitted its peer does not fail to authenticate any more: the question is
answered, the challenge is answered, so neither of the two deadlines runs, and a packet of the
handshake ends the session as a violation of the protocol (`Session.next_ne_auth`).

A running session tells its node that the peer may take part, and in the end why it ended. `Voice`
says how far a session is that has told this much, and `Voice.move` that a step of any of its parts
keeps it so. Why it ends is settled when its loop stops, before that is told (`Fated`).
-/

namespace SharedClipboard

namespace Session

variable {v : View} {s s' : Session} {i : Input}

/-! ## One step -/

/-- A question is open only while the handshake awaits the decision. -/
def Steady (s : Session) : Prop :=
  s.decisionDue.isSome = true → s.handshake.awaitingDecision = true

/-- What a session waits for: an answer of the user and a deadline only while they are open. -/
def Awaits (s : Session) : Input → Prop
  | .decided _ | .timer .decision => s.decisionDue.isSome = true
  | .timer .response => s.handshake.responseDeadline.isSome = true
  | .kicked | .writeFailed _ | .received _ | .timer .idle | .timer .keepalive => True

/-- A step says that the peer may take part if and only if it admits the peer. -/
inductive Advances (s : Session) (t : Turn) : Prop where
  | ends {reason : CloseReason} : t.next = .error reason → .authenticated ∉ t.actions →
      Advances s t
  | goesOn {s' : Session} : t.next = .ok s' → s'.Steady →
      (s'.handshake.state = .authenticated ↔
        s.handshake.state = .authenticated ∨ .authenticated ∈ t.actions) → Advances s t

theorem awaitingDecision_iff {h : Handshake} :
    h.awaitingDecision = true ↔ h.state = .challengeIssued ∧ h.verified = true := by
  rw [Handshake.awaitingDecision, Bool.and_eq_true, beq_iff_eq]

theorem Steady.of_keeps (hs : s.Steady) (hk : s.KeepsCourse s') : s'.Steady := by
  intro hdue
  rw [awaitingDecision_iff, hk.state, hk.verified, ← awaitingDecision_iff]
  exact hs (hk.decisionDue ▸ hdue)

theorem advances_of_plain (hs : s.Steady) {t : Turn} (ht : t.Plain s) : Advances s t := by
  have hnone : .authenticated ∉ t.actions := fun h => ht.actions _ h
  cases hnext : t.next with
  | error reason => exact .ends hnext hnone
  | ok s' =>
    have hk := ht.next s' hnext
    exact .goesOn hnext (hs.of_keeps hk) (by simp [hk.state, hnone])

/-- Admitting the peer while no question is open. -/
theorem advances_promote {s₁ : Session} (hdue : s₁.decisionDue = none)
    (hstate : s₁.handshake.state = .authenticated ↔ s.handshake.state = .authenticated) :
    Advances s s₁.promote := by
  have hsteady : ∀ {s₂ : Session}, s₂.decisionDue = none → s₂.Steady := fun h hsome => by
    rw [h] at hsome
    cases hsome
  cases hw : s₁.handshake.awaitingDecision with
  | false =>
    rw [promote_of_not_awaiting hw]
    exact .goesOn rfl (hsteady hdue) (by simp [goOn, hstate])
  | true =>
    obtain ⟨hissued, hverified⟩ := awaitingDecision_iff.1 hw
    rw [promote_of_awaiting hissued hverified]
    exact .goesOn rfl (hsteady hdue) (by simp [goOn, admitted, admission])

theorem state_of_onResponse {h h' : Handshake} {given : Bytes} {peer : Option Fingerprint}
    (heq : h.onResponse given peer = (.ok (), h')) :
    h.state = .challengeIssued ∧ h'.state = .challengeIssued := by
  unfold Handshake.onResponse at heq
  split at heq
  · cases heq
  · rename_i hopen
    have hstate : h.state = .challengeIssued := by simpa using (not_or.1 hopen).1
    split at heq
    · cases heq
    · split at heq <;> cases heq
      exact ⟨hstate, hstate⟩

/-- No question is open while the challenge is not answered. -/
theorem Steady.no_question (hs : s.Steady) (hverified : s.handshake.verified = false) :
    s.decisionDue = none := by
  cases hdue : s.decisionDue with
  | none => rfl
  | some t =>
    have hawaits := (awaitingDecision_iff.1 (hs (by rw [hdue]; rfl))).2
    rw [hverified] at hawaits
    cases hawaits

theorem advances_onResponse (hs : s.Steady) (hstate : s.handshake.state ≠ .authenticated)
    (given : Bytes) : Advances s (onResponse v { s with lastReceived := v.now } given) := by
  unfold onResponse
  split
  · exact .ends rfl (by simp [stop])
  · rename_i h heq
    obtain ⟨hopen, hright⟩ := verified_of_onResponse heq
    obtain ⟨-, hissued⟩ := state_of_onResponse heq
    simp only
    split
    · refine advances_promote (hs.no_question hopen) ?_
      simp [hissued, hstate]
    · refine .goesOn rfl (fun _ => awaitingDecision_iff.2 ⟨hissued, hright⟩) ?_
      simp [goOn, hissued, hstate]

theorem advances_step (hs : s.Steady) (v : View) (i : Input) : Advances s (s.step v i) := by
  obtain ⟨hplain, -⟩ | ⟨given, rfl, hstate, hturn⟩ | ⟨rfl, hturn⟩ := step_cases v s i
  · exact advances_of_plain hs hplain
  · rw [hturn]
    exact advances_onResponse hs hstate given
  · rw [hturn]
    exact advances_promote rfl Iff.rfl

/-- A member has no open question and no deadline to answer. -/
theorem Steady.settled (hs : s.Steady) (hauth : s.handshake.state = .authenticated) :
    s.decisionDue.isSome ≠ true ∧ s.handshake.responseDeadline = none := by
  refine ⟨fun hdue => ?_, by simp [Handshake.responseDeadline, hauth]⟩
  have hissued := (awaitingDecision_iff.1 (hs hdue)).1
  rw [hauth] at hissued
  cases hissued

theorem next_send_ne_auth (v : View) (p : Packet) (s : Session) (cause : AuthError) :
    (s.send v p).next ≠ .error (.auth cause) := by
  unfold send
  cases v.room <;> simp [goOn, stop, CloseReason.notDraining]

/-- A packet of the handshake ends the session of a member. -/
theorem step_of_late (hauth : s.handshake.state = .authenticated) {p : Packet}
    (hp : p.type.isHandshake = true) : s.step v (.received (.packet p)) = stop .lateHandshake := by
  simp [step, onReceived, onPacket, Handshake.isAuthenticated, hauth, hp]

/-- The session of a member does not end because authentication failed. -/
theorem next_ne_auth (hs : s.Steady) (hauth : s.handshake.state = .authenticated)
    (hi : s.Awaits i) (cause : AuthError) : (s.step v i).next ≠ .error (.auth cause) := by
  obtain ⟨hdue, hdeadline⟩ := hs.settled hauth
  cases i with
  | kicked | writeFailed e => simp [step, stop]
  | decided allow => exact absurd hi hdue
  | timer k =>
    cases k with
    | decision => exact absurd hi hdue
    | response =>
      rw [Awaits, hdeadline] at hi
      cases hi
    | idle => simp [step, onTimer, stop]
    | keepalive => exact next_send_ne_auth _ _ _ _
  | received r =>
    cases r with
    | finished | failed e | undecodable e => simp [step, onReceived, stop]
    | packet p =>
      -- A member has no handshake left, so a packet of one ends it for another reason.
      by_cases hp : p.type.isHandshake = true
      · rw [step_of_late hauth hp]
        simp [stop, CloseReason.lateHandshake]
      · cases p with
        | challengeRequest _ | challengeResponse _ => exact absurd rfl hp
        | syncRequest mime data => simp [step, onReceived, onPacket, hp, goOn]
        | invalid => simp [step, onReceived, onPacket, hp, stop]
        | ping =>
          have hturn : s.step v (.received (.packet .ping)) =
              onPing v { s with lastReceived := v.now } := by
            simp [step, onReceived, onPacket, hp]
          rw [hturn, onPing]
          split
          · simp [goOn]
          · exact next_send_ne_auth _ _ _ _

end Session

namespace SessionTask

variable {t : SessionTask} {conn : Connection} {m : Moved} {told : List Report}

/-! ## What a running session tells -/

/-- The report that a note is. -/
def Note.report? : Note → Option Report
  | report r => some r
  | asks | withdraws | remembers _ => none

/-- What the node is told by some notes. -/
def reports (notes : List Note) : List Report := notes.filterMap Note.report?

theorem mem_reports {notes : List Note} {r : Report} : r ∈ reports notes ↔ .report r ∈ notes := by
  rw [reports, List.mem_filterMap]
  constructor
  · rintro ⟨n, hn, hr⟩
    cases n <;> cases hr
    exact hn
  · exact fun hr => ⟨_, hr, rfl⟩

/-- The end is not told. -/
def Open (told : List Report) : Prop := ∀ reason, .closed reason ∉ told

theorem Open.append {more : List Report} (h : Open told) (hmore : Open more) :
    Open (told ++ more) :=
  fun reason hmem => (List.mem_append.1 hmem).elim (h reason) (hmore reason)

/-- How far a session is that has told this much. If it has admitted its peer it does not end
because authentication failed, and the end is the last that it tells. -/
inductive Voice (told : List Report) : Stage → Prop where
  | running {x : Session} : Open told → x.Steady →
      (x.handshake.state = .authenticated ↔ .authenticated ∈ told) → Voice told (.running x)
  | draining {reason : CloseReason} {limit : Time} : Open told →
      (.authenticated ∈ told → ∀ cause, reason ≠ .auth cause) → Voice told (.draining reason limit)
  | ended {before : List Report} {reason : CloseReason} : told = before ++ [.closed reason] →
      Open before → (.authenticated ∈ before → ∀ cause, reason ≠ .auth cause) → Voice told .ended

/-- What the session is after its loop went round or stopped. -/
def Stage.ofNext (now : Time) : Except CloseReason Session → Stage
  | .ok s => .running s
  | .error reason => .draining reason (now + drainTime)

theorem stage_settleTurn (now : Time) (t : SessionTask) (asking : Bool) (turn : Session.Turn) :
    (t.settleTurn now asking turn).1.stage = .ofNext now turn.next := by
  simp only [settleTurn, actAll_eq]
  split
  · rename_i hnext
    rw [hnext]
    rfl
  · rename_i hnext
    rw [hnext]
    rfl

/-- What a session is given is something that it waits for. -/
theorem Gives.awaits {now : Time} {x : Session} {i : Session.Input} {t' : SessionTask}
    (h : Gives now t x i t') : x.Awaits i := by
  cases h with
  | kicked | writeFailed | received => trivial
  | decided hdue => exact hdue
  | @timer k _ hdue =>
    cases k with
    | decision | response => exact Option.isSome_of_mem hdue
    | idle | keepalive => trivial

/-- A step of the session: what it took, where it leads, and what is told. -/
theorem turn_of_driveStep {n : Nat} {now : Time} {trusts : Fingerprint → Bool}
    (h : t.driveStep n now trusts conn = some m) :
    ∃ x i t', t.stage = .running x ∧ Gives now t x i t' ∧ (t.ready now x)[n]? = some (i, t') ∧
      m.task.stage = .ofNext now (x.step ⟨now, t.outbox.room, trusts⟩ i).next ∧
      ∀ r, .report r ∈ m.notes ↔
        ∃ a ∈ (x.step ⟨now, t.outbox.room, trusts⟩ i).actions, note? a = some (.report r) := by
  obtain ⟨x, i, t', asking, hstage, hgives, hready, -, rfl⟩ := gives_of_driveStep h
  exact ⟨x, i, t', hstage, hgives, hready, stage_settleTurn .., fun r =>
    mem_settleTurn _ _ _ _ (by simp)⟩

theorem Voice.of_driveStep {n : Nat} {now : Time} {trusts : Fingerprint → Bool}
    (ht : Voice told t.stage) (h : t.driveStep n now trusts conn = some m) :
    Voice (told ++ reports m.notes) m.task.stage := by
  obtain ⟨x, i, t', hstage, hgives, -, hnext, hnotes⟩ := turn_of_driveStep h
  rw [hstage] at ht
  cases ht with
  | running hopen hsteady hstate =>
    have hstill : Open (told ++ reports m.notes) := hopen.append fun reason hmem => by
      obtain ⟨a, -, hnote⟩ := (hnotes _).1 (mem_reports.1 hmem)
      cases a <;> cases hnote
    have hadmits : .authenticated ∈ reports m.notes ↔
        .authenticated ∈ (x.step ⟨now, t.outbox.room, trusts⟩ i).actions := by
      rw [mem_reports, hnotes]
      constructor
      · rintro ⟨a, ha, hnote⟩
        cases a <;> cases hnote
        exact ha
      · exact fun ha => ⟨_, ha, rfl⟩
    rw [hnext]
    cases Session.advances_step hsteady ⟨now, t.outbox.room, trusts⟩ i with
    | ends hends hsilent =>
      rw [hends]
      refine .draining hstill fun hauth cause heq => ?_
      rw [List.mem_append, hadmits] at hauth
      refine Session.next_ne_auth hsteady (hstate.2 (hauth.resolve_right hsilent))
        hgives.awaits cause (v := ⟨now, t.outbox.room, trusts⟩) ?_
      rw [hends, heq]
    | goesOn hgoes hsteady' hstate' =>
      rw [hgoes]
      exact .running hstill hsteady' (by rw [hstate', hstate, List.mem_append, hadmits])

/-- What a step of any other part does: it tells at most what was written, or the end of a session
whose loop has stopped. -/
inductive Winds (t : SessionTask) (m : Moved) : Prop where
  | goesOn : m.task.stage = t.stage → (∀ r ∈ reports m.notes, ∃ seq, r = .flushed seq) →
      (t.stage = .ended → reports m.notes = []) → Winds t m
  | ends {reason : CloseReason} {limit : Time} : t.stage = .draining reason limit →
      m.task.stage = .ended → reports m.notes = [.closed reason] → Winds t m

theorem winds_of_readStep {codec : Codec} (h : t.readStep codec conn = some m) : Winds t m := by
  have hreads := reads_of_readStep h
  have hnone : reports m.notes = [] := by rw [hreads.notes]; rfl
  exact .goesOn hreads.stage (by simp [hnone]) fun _ => hnone

theorem winds_of_writeStep (h : t.writeStep conn = some m) : Winds t m := by
  unfold writeStep at h
  simp only at h
  split at h
  · cases h
  · rename_i hgoing
    obtain ⟨r, -, rfl⟩ := Option.map_eq_some_iff.1 h
    refine .goesOn rfl (fun x hx => ?_) fun hended => absurd hended hgoing
    obtain ⟨seq, -, hseq⟩ := List.mem_map.1 (mem_reports.1 hx)
    cases hseq
    exact ⟨seq, rfl⟩

theorem winds_of_heedStep (h : t.heedStep conn = some m) : Winds t m := by
  obtain ⟨-, rfl⟩ := of_heedStep h
  exact .goesOn rfl (fun x hx => (nomatch hx)) fun _ => rfl

theorem winds_of_endStep {now : Time} (h : t.endStep now conn = some m) : Winds t m := by
  unfold endStep at h
  split at h
  · rename_i hstage
    split at h <;> cases h
    exact .ends hstage rfl rfl
  · cases h

theorem Voice.of_winds (ht : Voice told t.stage) (hm : Winds t m) :
    Voice (told ++ reports m.notes) m.task.stage := by
  cases hm with
  | goesOn hstage hflushed hended =>
    have hopen : Open (reports m.notes) := fun reason hmem => by
      obtain ⟨seq, hseq⟩ := hflushed _ hmem
      cases hseq
    have hauth : .authenticated ∈ told ++ reports m.notes ↔ .authenticated ∈ told := by
      rw [List.mem_append]
      refine or_iff_left fun hmem => ?_
      obtain ⟨seq, hseq⟩ := hflushed _ hmem
      cases hseq
    rw [hstage]
    cases hs : t.stage with
    | ended => rwa [hended hs, List.append_nil, ← hs]
    | running x =>
      rw [hs] at ht
      cases ht with
      | running hsilent hsteady hstate =>
        exact .running (hsilent.append hopen) hsteady (hstate.trans hauth.symm)
    | draining reason limit =>
      rw [hs] at ht
      cases ht with
      | draining hsilent hreason =>
        exact .draining (hsilent.append hopen) fun hmem => hreason (hauth.1 hmem)
  | ends hstage hended htells =>
    rw [hstage] at ht
    rw [hended, htells]
    cases ht with
    | draining hopen hreason => exact .ended rfl hopen hreason

/-- A session that has just started has told nothing. -/
theorem voice_start (settings : Session.Settings) (direction : Direction)
    (mine peer : Option Fingerprint) (capacity : Nat) (now : Time) (nonce : Bytes) :
    Voice [] (start settings direction mine peer capacity now nonce).1.stage := by
  have hopen : Open [] := fun reason => List.not_mem_nil
  have hturn : ∀ v : Session.View, (Session.fresh settings direction mine peer now).start v nonce =
      { Session.fresh settings direction mine peer now with
        handshake := ((Handshake.fresh settings.handshakeTimeout).issue v.now nonce).2 }.send v
          (.challengeRequest nonce) := fun v => rfl
  rw [start, stage_settleTurn, hturn]
  obtain hsent | ⟨cause, hstop⟩ := Session.send_cases
    ⟨now, ({ capacity } : Outbox).room, fun _ => false⟩ (.challengeRequest nonce)
    { Session.fresh settings direction mine peer now with
      handshake := ((Handshake.fresh settings.handshakeTimeout).issue now nonce).2 }
  · rw [hsent]
    refine .running hopen (fun hdue => ?_) (by simp [Handshake.issue, Handshake.fresh])
    cases hdue
  · rw [hstop]
    exact .draining hopen fun hmem => absurd hmem List.not_mem_nil

/-- The end is the last that a session tells. -/
theorem Voice.last {stage : Stage} {before after : List Report}
    (h : Voice (before ++ after) stage) {reason : CloseReason} (hmem : .closed reason ∈ before) :
    after = [] := by
  cases h with
  | running hopen | draining hopen => exact absurd (List.mem_append_left _ hmem) (hopen reason)
  | @ended told last heq hopen =>
    cases after using List.reverseRecOn with
    | nil => rfl
    | append_singleton after x =>
      rw [← List.append_assoc] at heq
      have hbefore := (List.append_inj' heq rfl).1
      exact absurd (hbefore ▸ List.mem_append_left after hmem) (hopen reason)

/-- Who has admitted its peer does not tell that authentication failed. -/
theorem Voice.not_auth {stage : Stage} (h : Voice told stage) (hauth : .authenticated ∈ told)
    (cause : AuthError) : .closed (.auth cause) ∉ told := by
  intro hmem
  cases h with
  | running hopen | draining hopen => exact hopen _ hmem
  | @ended before reason heq hopen hreason =>
    rw [heq, List.mem_append, List.mem_singleton] at hauth hmem
    obtain hearlier | hlast := hmem
    · exact hopen _ hearlier
    · cases hlast
      exact hreason (hauth.resolve_right (by simp)) cause rfl

/-! ## Why a session ends -/

/-- The loop of a session has stopped, and the reason is the only one that it tells. -/
def Fated (reason : CloseReason) (told : List Report) : Stage → Prop
  | .running _ => False
  | .draining r _ => r = reason ∧ Open told
  | .ended => ∀ r, .closed r ∈ told → r = reason

/-- A loop that has stopped makes no step. -/
theorem Fated.not_driveStep {reason : CloseReason} {n : Nat} {now : Time}
    {trusts : Fingerprint → Bool} (ht : Fated reason told t.stage) (m : Moved) :
    t.driveStep n now trusts conn ≠ some m := by
  intro hm
  obtain ⟨x, -, -, hstage, -⟩ := turn_of_driveStep hm
  rw [hstage] at ht
  exact ht.elim

theorem Fated.of_winds {reason : CloseReason} (ht : Fated reason told t.stage) (hm : Winds t m) :
    Fated reason (told ++ reports m.notes) m.task.stage := by
  cases hm with
  | goesOn hstage hflushed hended =>
    rw [hstage]
    cases hs : t.stage with
    | running x =>
      rw [hs] at ht
      exact ht
    | draining r limit =>
      rw [hs] at ht
      refine ⟨ht.1, ht.2.append fun r hmem => ?_⟩
      obtain ⟨seq, hseq⟩ := hflushed _ hmem
      cases hseq
    | ended =>
      rw [hs] at ht
      rw [hended hs, List.append_nil]
      exact ht
  | ends hstage hended htells =>
    rw [hstage] at ht
    rw [hended, htells]
    intro r hmem
    obtain hold | hnew := List.mem_append.1 hmem
    · exact absurd hold (ht.2 r)
    · cases List.mem_singleton.1 hnew
      exact ht.1

theorem Fated.closed {reason r : CloseReason} {stage : Stage} (h : Fated reason told stage)
    (hmem : .closed r ∈ told) : r = reason := by
  cases stage with
  | running x => exact h.elim
  | draining r' limit => exact absurd hmem (h.2 r)
  | ended => exact h r hmem

end SessionTask

end SharedClipboard
