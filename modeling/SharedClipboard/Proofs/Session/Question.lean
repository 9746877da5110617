import SharedClipboard.Proofs.Session.Parts

/-!
# A session asks once

A session asks the user when the peer's answer to the challenge was right, and it asks only then. A
handshake whose answer was right takes no other, so no session asks while its question is open, and
an answer that waits for a session is the answer to an open question (`Attentive`).

Whoever runs a session sees only its notes. `Heeds` says what they tell about the question: a step
that asks does nothing else and leaves the question open, and an open question stays open unless the
session says that it withdraws it.
-/

namespace SharedClipboard

namespace Session

/-- What a turn does to the question whether the peer may join. -/
inductive Minds (s : Session) (i : Input) (t : Turn) : Prop where
  | ends {reason : CloseReason} : t.next = .error reason → .ask ∉ t.actions → Minds s i t
  /-- The question is open if it was before. -/
  | goesOn {s' : Session} : (∀ allow, i ≠ .decided allow) → t.next = .ok s' → .ask ∉ t.actions →
      s'.decisionDue = s.decisionDue →
      (s.handshake.verified = true → s'.handshake.verified = true) →
      Minds s i t
  | decides {s' : Session} : i = .decided true → t.next = .ok s' → .ask ∉ t.actions →
      s'.decisionDue = none → Minds s i t
  | asks {s' : Session} : s.handshake.verified = false → t.next = .ok s' → t.actions = [.ask] →
      s'.decisionDue.isSome = true → s'.handshake.verified = true → Minds s i t

theorem not_ask_of_plain {t : Turn} {s : Session} (h : t.Plain s) : .ask ∉ t.actions :=
  fun hask => h.actions _ hask

/-- Admission asks nothing and leaves the question where it is. -/
theorem promote_spec (s : Session) : .ask ∉ s.promote.actions ∧
    ∃ s', s.promote.next = .ok s' ∧ s'.decisionDue = s.decisionDue ∧
      s'.handshake.verified = s.handshake.verified := by
  have hadmission : .ask ∉ s.admission := by simp [admission]
  unfold promote Handshake.approve
  by_cases hw : s.handshake.awaitingDecision = true
  · simp only [hw, if_true]
    exact ⟨hadmission, _, rfl, rfl, rfl⟩
  · simp only [hw, if_false, Bool.false_eq_true]
    exact ⟨by simp [goOn], s, rfl, rfl, rfl⟩

/-- A handshake that takes an answer had taken none, and it was right. -/
theorem verified_of_onResponse {h h' : Handshake} {given : Bytes} {peer : Option Fingerprint}
    (heq : h.onResponse given peer = (.ok (), h')) : h.verified = false ∧ h'.verified = true := by
  unfold Handshake.onResponse at heq
  split at heq
  · cases heq
  · rename_i hopen
    split at heq
    · cases heq
    · split at heq
      · cases heq
        exact ⟨by simpa using (not_or.1 hopen).2, rfl⟩
      · cases heq

theorem minds_onResponse (v : View) (s : Session) (given : Bytes) {i : Input}
    (hi : ∀ allow, i ≠ .decided allow) : Minds s i (onResponse v s given) := by
  unfold onResponse
  split
  · exact .ends rfl (by simp [stop])
  · rename_i h heq
    obtain ⟨hfresh, hright⟩ := verified_of_onResponse heq
    simp only
    split
    · obtain ⟨hask, s', hnext, hdue, hverified⟩ := promote_spec { s with handshake := h }
      exact .goesOn hi hnext hask hdue fun _ => hverified.trans hright
    · exact .asks hfresh rfl rfl rfl hright

theorem minds_step (v : View) (s : Session) (i : Input) : Minds s i (s.step v i) := by
  -- The user's decision settles the question; only a right answer of the peer opens one.
  by_cases hi : ∃ allow, i = .decided allow
  · obtain ⟨allow, rfl⟩ := hi
    cases allow with
    | false => exact .ends rfl (by simp [step, onDecision, stop])
    | true =>
      obtain ⟨hask, s', hnext, hdue, -⟩ := promote_spec { s with decisionDue := none }
      exact .decides rfl hnext hask hdue
  · rw [not_exists] at hi
    obtain ⟨hplain, -⟩ | ⟨given, rfl, -, hturn⟩ | ⟨rfl, -⟩ := step_cases v s i
    · cases hnext : (s.step v i).next with
      | error reason => exact .ends hnext (not_ask_of_plain hplain)
      | ok s' =>
        have hk := hplain.next s' hnext
        exact .goesOn hi hnext (not_ask_of_plain hplain) hk.decisionDue
          fun hv => hk.verified.trans hv
    · rw [hturn]
      obtain h | ⟨-, h, hask, hdue, hv⟩ | ⟨hdecided, -⟩ | ⟨hv, h, hask, hdue, hv'⟩ :=
        minds_onResponse v { s with lastReceived := v.now } given hi
      · exact .ends h ‹_›
      · exact .goesOn hi h hask hdue hv
      · cases hdecided
      · exact .asks hv h hask hdue hv'
    · exact absurd rfl (hi true)

end Session

namespace SessionTask

variable {t : SessionTask} {conn : Connection} {m : Moved}

/-- The session waits for the decision of the user. -/
def Asking (t : SessionTask) : Prop := ∃ s, t.stage = .running s ∧ s.decisionDue.isSome = true

/-- The session waits for the decision of the user, who has made none. -/
def IsOpen (t : SessionTask) : Prop := t.Asking ∧ t.answer = none

/-- A question is open only after the right answer to the challenge, and an answer of the user waits
only for a session whose question is open. -/
structure Attentive (t : SessionTask) : Prop where
  verified : ∀ s, t.stage = .running s → s.decisionDue.isSome = true →
    s.handshake.verified = true
  answer : ∀ s, t.stage = .running s → t.answer.isSome = true → s.decisionDue.isSome = true

/-- What the notes of a step tell about the question. -/
structure Heeds (t : SessionTask) (m : Moved) : Prop where
  attentive : m.task.Attentive
  asks : .asks ∈ m.notes → m.notes = [.asks] ∧ m.task.IsOpen ∧ ¬ t.Asking
  keeps : .asks ∉ m.notes → t.IsOpen → m.task.IsOpen ∨ .withdraws ∈ m.notes

/-- A session that has ended asks nothing. -/
theorem attentive_of_ended (h : ∀ s, t.stage ≠ .running s) : t.Attentive :=
  ⟨fun s hs => absurd hs (h s), fun s hs => absurd hs (h s)⟩

/-- The user answers an open question. -/
theorem Attentive.answered (h : t.Attentive) (ht : t.Asking) (answer : Option Bool) :
    Attentive { t with answer } where
  verified := h.verified
  answer s hs _ := by
    obtain ⟨x, hx, hdue⟩ := ht
    rw [show t.stage = .running s from hs] at hx
    cases hx
    exact hdue

/-- What neither touches the session nor the answer leaves the question where it is. -/
theorem Attentive.of_same {t' : SessionTask} (h : t.Attentive) (hstage : t'.stage = t.stage)
    (hanswer : t'.answer = t.answer) : t'.Attentive where
  verified s hs := h.verified s (hstage ▸ hs)
  answer s hs hset := h.answer s (hstage ▸ hs) (hanswer ▸ hset)

theorem IsOpen.of_same {t' : SessionTask} (h : t.IsOpen) (hstage : t'.stage = t.stage)
    (hanswer : t'.answer = t.answer) : t'.IsOpen := by
  obtain ⟨⟨s, hs, hdue⟩, hnone⟩ := h
  exact ⟨⟨s, hstage.trans hs, hdue⟩, hanswer.trans hnone⟩

theorem heeds_of_same (h : t.Attentive) (hstage : m.task.stage = t.stage)
    (hanswer : m.task.answer = t.answer) (hnotes : .asks ∉ m.notes) : Heeds t m where
  attentive := h.of_same hstage hanswer
  asks hask := absurd hask hnotes
  keeps _ hopen := .inl (hopen.of_same hstage hanswer)

theorem heeds_of_readStep {codec : Codec} (ht : t.Attentive)
    (h : t.readStep codec conn = some m) : Heeds t m := by
  have hreads := reads_of_readStep h
  exact heeds_of_same ht hreads.stage hreads.answer (by simp [hreads.notes])

theorem heeds_of_writeStep (ht : t.Attentive) (h : t.writeStep conn = some m) : Heeds t m := by
  unfold writeStep at h
  simp only at h
  split at h
  · cases h
  · obtain ⟨r, -, rfl⟩ := Option.map_eq_some_iff.1 h
    exact heeds_of_same ht rfl rfl (by simp)

theorem heeds_of_heedStep (ht : t.Attentive) (h : t.heedStep conn = some m) : Heeds t m := by
  obtain ⟨-, rfl⟩ := of_heedStep h
  exact heeds_of_same ht rfl rfl fun hasks => (nomatch hasks)

theorem heeds_of_endStep {now : Time} (h : t.endStep now conn = some m) : Heeds t m := by
  unfold endStep at h
  split at h
  · rename_i hdraining
    split at h
    · cases h
      refine ⟨attentive_of_ended (by simp), by simp, fun _ hopen => ?_⟩
      obtain ⟨⟨s, hs, -⟩, -⟩ := hopen
      rw [hdraining] at hs
      cases hs
    · cases h
  · cases h

theorem not_asks_of_actions {as : List Session.Action} (h : .ask ∉ as) :
    .asks ∉ as.filterMap note? := by
  rintro hmem
  obtain ⟨a, ha, hnote⟩ := List.mem_filterMap.1 hmem
  cases a with
  | ask => exact h ha
  | send _ | remember _ | authenticated | update _ _ => cases hnote

/-! ## The session -/

section Drive

variable {s s' : Session} {i : Session.Input} {t' : SessionTask} {turn : Session.Turn} {now : Time}
  {asking : Bool}

theorem settleTurn_of_ok (hnext : turn.next = .ok s') :
    t.settleTurn now asking turn =
      ({ t with outbox := turn.actions.foldl queueAction t.outbox, stage := .running s' },
        turn.actions.filterMap note?) := by
  simp only [settleTurn, actAll_eq, hnext]

theorem settleTurn_of_error {reason : CloseReason} (hnext : turn.next = .error reason) :
    t.settleTurn now asking turn =
      ({ t with
          outbox := turn.actions.foldl queueAction t.outbox
          stage := .draining reason (now + drainTime), readerRuns := false, held := none },
        turn.actions.filterMap note? ++ if asking then [.withdraws] else []) := by
  simp only [settleTurn, actAll_eq, hnext]

/-- The question of a session that ends is withdrawn, unless the user has just answered it. -/
theorem heeds_of_ends {reason : CloseReason} (hstage : t.stage = .running s)
    (hnext : turn.next = .error reason) (hask : .ask ∉ turn.actions)
    (hasking : t.answer = none → s.decisionDue.isSome = true → asking = true) :
    Heeds t ⟨(t'.settleTurn now asking turn).1, conn, (t'.settleTurn now asking turn).2⟩ := by
  have hnotes := not_asks_of_actions hask
  rw [settleTurn_of_error hnext]
  refine ⟨attentive_of_ended (by simp), fun hasks => ?_, fun _ hopen => .inr ?_⟩
  · cases asking <;> simp [hnotes] at hasks
  · obtain ⟨⟨x, hx, hdue⟩, hnone⟩ := hopen
    rw [hstage] at hx
    cases hx
    simp [hasking hnone hdue]

theorem heeds_of_goesOn (ht : t.Attentive) (hstage : t.stage = .running s)
    (hnext : turn.next = .ok s') (hask : .ask ∉ turn.actions)
    (hdue : s'.decisionDue = s.decisionDue)
    (hverified : s.handshake.verified = true → s'.handshake.verified = true)
    (hanswer : t'.answer = t.answer) :
    Heeds t ⟨(t'.settleTurn now asking turn).1, conn, (t'.settleTurn now asking turn).2⟩ := by
  rw [settleTurn_of_ok hnext]
  refine ⟨⟨?_, ?_⟩, fun hasks => absurd hasks (not_asks_of_actions hask), fun _ hopen => .inl ?_⟩
  · rintro _ ⟨⟩ hset
    exact hverified (ht.verified s hstage (hdue ▸ hset))
  · rintro _ ⟨⟩ hset
    rw [hdue]
    exact ht.answer s hstage (hanswer ▸ hset)
  · obtain ⟨⟨x, hx, hset⟩, hnone⟩ := hopen
    rw [hstage] at hx
    cases hx
    exact ⟨⟨s', rfl, by rw [hdue]; exact hset⟩, hanswer.trans hnone⟩

theorem heeds_of_decides {allow : Bool} (hnext : turn.next = .ok s') (hask : .ask ∉ turn.actions)
    (hdue : s'.decisionDue = none) (hanswer : t.answer = some allow) (hused : t'.answer = none) :
    Heeds t ⟨(t'.settleTurn now asking turn).1, conn, (t'.settleTurn now asking turn).2⟩ := by
  rw [settleTurn_of_ok hnext]
  refine ⟨⟨?_, ?_⟩, fun hasks => absurd hasks (not_asks_of_actions hask), fun _ hopen => ?_⟩
  · rintro _ ⟨⟩ hset
    rw [hdue] at hset
    cases hset
  · rintro _ ⟨⟩ hset
    rw [show t'.answer = none from hused] at hset
    cases hset
  · rw [hopen.2] at hanswer
    cases hanswer

/-- Before the right answer to the challenge no question is open, so no answer of the user waits. -/
theorem heeds_of_asks (ht : t.Attentive) (hstage : t.stage = .running s)
    (hfresh : s.handshake.verified = false) (hnext : turn.next = .ok s')
    (hactions : turn.actions = [.ask]) (hdue : s'.decisionDue.isSome = true)
    (hverified : s'.handshake.verified = true) (hanswer : t.answer = none → t'.answer = none) :
    Heeds t ⟨(t'.settleTurn now asking turn).1, conn, (t'.settleTurn now asking turn).2⟩ := by
  have hquiet : ¬ s.decisionDue.isSome = true := fun hset => by
    rw [ht.verified s hstage hset] at hfresh
    cases hfresh
  have hnone : t'.answer = none := hanswer <| by
    cases hset : t.answer with
    | none => rfl
    | some allow => exact absurd (ht.answer s hstage (by rw [hset]; rfl)) hquiet
  rw [settleTurn_of_ok hnext, hactions]
  refine ⟨⟨?_, ?_⟩, fun _ => ⟨rfl, ⟨⟨s', rfl, hdue⟩, hnone⟩, ?_⟩, fun hasks => ?_⟩
  · rintro _ ⟨⟩ -
    exact hverified
  · rintro _ ⟨⟩ -
    exact hdue
  · rintro ⟨x, hx, hset⟩
    rw [hstage] at hx
    cases hx
    exact hquiet hset
  · exact absurd List.mem_cons_self hasks

theorem heeds_of_driveStep {n : Nat} {trusts : Fingerprint → Bool} (ht : t.Attentive)
    (h : t.driveStep n now trusts conn = some m) : Heeds t m := by
  obtain ⟨s, i, t', asking, hstage, hgives, -, rfl, rfl⟩ := gives_of_driveStep h
  have hanswer := hgives.answer
  cases Session.minds_step ⟨now, t.outbox.room, trusts⟩ s i with
  | ends hnext hask =>
    refine heeds_of_ends hstage hnext hask fun hnone hdue => ?_
    obtain ⟨allow, -, hset, -⟩ | ⟨hi, -⟩ := hanswer
    · rw [hnone] at hset
      cases hset
    · cases i with
      | decided allow => exact absurd rfl (hi allow)
      | kicked | writeFailed _ | received _ | timer _ => simp [hdue]
  | goesOn hi hnext hask hdue hverified =>
    obtain ⟨allow, hdecided, -⟩ | ⟨-, hkept⟩ := hanswer
    · exact absurd hdecided (hi allow)
    · exact heeds_of_goesOn ht hstage hnext hask hdue hverified hkept
  | decides hdecided hnext hask hdue =>
    obtain ⟨allow, -, hset, hused⟩ | ⟨hi, -⟩ := hanswer
    · exact heeds_of_decides hnext hask hdue hset hused
    · exact absurd hdecided (hi true)
  | asks hfresh hnext hactions hdue hverified =>
    refine heeds_of_asks ht hstage hfresh hnext hactions hdue hverified fun hnone => ?_
    obtain ⟨allow, -, -, hused⟩ | ⟨-, hkept⟩ := hanswer
    · exact hused
    · exact hkept.trans hnone

end Drive

/-- A session that has just started has asked nothing. -/
theorem attentive_start (settings : Session.Settings) (direction : Direction)
    (mine peer : Option Fingerprint) (capacity : Nat) (now : Time) (nonce : Bytes) :
    (start settings direction mine peer capacity now nonce).1.Attentive := by
  have hanswer := (starts_of_start settings direction mine peer capacity now nonce).2.answer
  refine ⟨fun s hs hdue => ?_, fun s hs hset => by rw [hanswer] at hset; cases hset⟩
  have hfresh : ∀ v s', ((Session.fresh settings direction mine peer now).start v nonce).next =
      .ok s' → s'.decisionDue = none := by
    intro v s' hs'
    obtain hsent | ⟨cause, hstop⟩ := Session.send_cases v (.challengeRequest nonce)
      { Session.fresh settings direction mine peer now with
        handshake := ((Handshake.fresh settings.handshakeTimeout).issue v.now nonce).2 }
    · have hstart : (Session.fresh settings direction mine peer now).start v nonce = _ := hsent
      rw [hstart] at hs'
      cases hs'
      rfl
    · have hstart : (Session.fresh settings direction mine peer now).start v nonce = _ := hstop
      rw [hstart] at hs'
      cases hs'
  simp only [start, settleTurn, actAll_eq] at hs
  split at hs
  · rename_i s' hnext
    cases hs
    rw [hfresh _ _ hnext] at hdue
    cases hdue
  · cases hs

end SessionTask

end SharedClipboard
