import SharedClipboard.Auth.Handshake

/-!
# A handshake in any order of its calls

A peer may answer before it was asked, answer twice or answer when all is over, and the user may
consent too late. So the calls of a handshake come in any order, with any arguments.
`Handshake.Run` relates the calls so far, each with whether it succeeded, to the handshake after
them, and `Challenge.Run` does so for a challenge alone.

**Theorem (`authenticated_in_order`).** A handshake is authenticated only if it issued its
challenge, then accepted the answer that the peer owes for it, then was approved, and nothing in the
whole run broke it off. Each of its four calls succeeds at most once, and a handshake that was
rejected stays so. The answer is due while the challenge is out, not answered and not rejected, and
the handshake is verified if and only if its challenge is completed.

The invariant (`Course`) ties the state, the challenge and the verified mark together and says which
calls led there. That a call succeeds at most once has a reason for each call: there is something
about the handshake that it needs, that it uses up, and that no other call gives back (`spent`).
-/

namespace SharedClipboard

/-! ## Challenges -/

namespace Challenge

inductive Call where
  | verify (given : Bytes) (peer : Option Fingerprint)
  | expire
  deriving DecidableEq, Repr

/-- Whether the call accepts an answer, and the challenge after it. -/
def call (c : Challenge) : Call → Bool × Challenge
  | .verify given peer => ((c.verify given peer).1.isOk, (c.verify given peer).2)
  | .expire => (false, c.expire)

/-- The calls on a challenge so far, each with whether it accepted an answer, and the challenge
after them. -/
inductive Run (first : Challenge) : List (Call × Bool) → Challenge → Prop where
  | start : Run first [] first
  | call {log : List (Call × Bool)} {c : Challenge} (x : Call) : Run first log c →
      Run first (log ++ [(x, (c.call x).1)]) (c.call x).2

variable {c : Challenge} {given : Bytes} {peer : Option Fingerprint}

theorem verify_of_settled (hc : c.state ≠ .issued) (given : Bytes) (peer : Option Fingerprint) :
    c.verify given peer = (.error .malformed, c) := if_pos hc

/-- A challenge that waits is settled by the answer, and completed if it is the right one. -/
theorem verify_of_issued (hc : c.state = .issued) (given : Bytes) (peer : Option Fingerprint) :
    (given = answer c.nonce peer ∧
        c.verify given peer = (.ok (), { c with state := .completed })) ∨
      ∃ e, c.verify given peer = (.error e, { c with state := .expired }) := by
  by_cases hright : given = answer c.nonce peer
  · subst hright
    exact .inl ⟨rfl, by simp [verify, hc]⟩
  · refine .inr ?_
    by_cases hlength : given.length = answerLength
    · exact ⟨.mismatch, by simp [verify, hc, hlength, hright]⟩
    · exact ⟨.malformed, by simp [verify, hc, hlength]⟩

/-- A challenge that is settled takes no answer and stays as it is. -/
theorem call_of_settled (hc : c.state ≠ .issued) (x : Call) : c.call x = (false, c) := by
  cases x with
  | verify given peer => simp [call, verify_of_settled hc, Except.isOk, Except.toBool]
  | expire => simp [call, expire, hc]

/-- A challenge that accepts an answer is settled by it. -/
theorem settled_of_call {x : Call} (hx : (c.call x).1 = true) : (c.call x).2.state ≠ .issued := by
  by_cases hc : c.state = .issued
  · cases x with
    | verify given peer =>
      obtain ⟨-, hok⟩ | ⟨e, herror⟩ := verify_of_issued hc given peer
      · simp [call, hok]
      · simp [call, herror]
    | expire => simp [call] at hx
  · rw [call_of_settled hc] at hx
    cases hx

/-- Nobody leaves a terminal state, and at most one answer is accepted. -/
theorem Run.settles {first : Challenge} {log : List (Call × Bool)} (hrun : Run first log c) :
    (first.state ≠ .issued → c.state = first.state) ∧ log.countP (·.2) ≤ 1 ∧
      (c.state = .issued → log.countP (·.2) = 0) := by
  induction hrun with
  | start => simp
  | @call log c x _ ih =>
    obtain ⟨hterminal, hone, hnone⟩ := ih
    rw [List.countP_append, List.countP_singleton]
    by_cases hc : c.state = .issued
    · refine ⟨fun hfirst => absurd ((hterminal hfirst).symm.trans hc) hfirst, ?_, fun hstill => ?_⟩
      · rw [hnone hc]
        split <;> omega
      · rw [if_neg fun hx => settled_of_call hx hstill, hnone hc]
    · rw [call_of_settled hc]
      exact ⟨hterminal, by simpa using hone, fun hstill => absurd hstill hc⟩

end Challenge

/-! ## Handshakes -/

namespace Handshake

/-- What can be done to a handshake. -/
inductive Call where
  | issue (now : Time) (nonce : Bytes)
  | answer (nonce : Bytes) (mine : Option Fingerprint)
  | onResponse (given : Bytes) (peer : Option Fingerprint)
  | approve
  | reject (cause : AuthError)
  | expire
  deriving DecidableEq, Repr

/-- The calls that succeed or fail. -/
inductive Kind where
  | issue
  | answer
  | onResponse
  | approve
  deriving DecidableEq, Repr

def Call.kind? : Call → Option Kind
  | issue _ _ => some .issue
  | answer _ _ => some .answer
  | onResponse _ _ => some .onResponse
  | approve => some .approve
  | reject _ | expire => none

/-- Whether the call succeeds, and the handshake after it. -/
def call (h : Handshake) : Call → Bool × Handshake
  | .issue now nonce => ((h.issue now nonce).1.isSome, (h.issue now nonce).2)
  | .answer nonce mine => ((h.answer nonce mine).1.isOk, (h.answer nonce mine).2)
  | .onResponse given peer => ((h.onResponse given peer).1.isOk, (h.onResponse given peer).2)
  | .approve => (h.approve.1.isOk, h.approve.2)
  | .reject cause => (true, h.reject cause)
  | .expire => (true, h.expire)

/-- The calls on a handshake so far, each with whether it succeeded, and what it is now. -/
inductive Run (first : Handshake) : List (Call × Bool) → Handshake → Prop where
  | start : Run first [] first
  | call {log : List (Call × Bool)} {h : Handshake} (x : Call) : Run first log h →
      Run first (log ++ [(x, (h.call x).1)]) (h.call x).2

/-- The call breaks the handshake off. -/
def Breaks : Call × Bool → Prop
  | (.reject _, _) | (.expire, _) | (.onResponse _ _, false) => True
  | _ => False

/-- The challenge was issued, the right answer to it was accepted, the peer was approved, and
nothing broke the handshake off. -/
def InOrder (log : List (Call × Bool)) : Prop :=
  (∀ e ∈ log, ¬ Breaks e) ∧ ∃ before now nonce between peer after rest,
    log = before ++ (.issue now nonce, true) :: (between ++
      (.onResponse (Challenge.answer nonce peer) peer, true) :: (after ++ (.approve, true) :: rest))

/-- How often a kind of call succeeded. -/
def successes (k : Kind) (log : List (Call × Bool)) : Nat :=
  log.countP fun e => e.1.kind? = some k && e.2

/-- The challenge was answered rightly. -/
def completed (h : Handshake) : Bool := h.challenge.any (·.state = .completed)

/-- When the challenge was issued, and the number in it. -/
def issued? (h : Handshake) : Option (Time × Bytes) :=
  h.challenge.map fun c => (c.issuedAt, c.nonce)

variable {h h' : Handshake} {log : List (Call × Bool)} {x : Call}

/-! ## What a call does -/

/-- The handshake is over, and what was verified and answered stays so. -/
structure Rejects (h h' : Handshake) : Prop where
  state : ∃ cause, h'.state = .rejected cause
  verified : h'.verified = h.verified
  answered : h'.answered = h.answered
  completed : h'.completed = h.completed
  issued : h'.issued? = h.issued?
  timeout : h'.timeout = h.timeout

/-- What a call does to a handshake, and whether it succeeds. -/
inductive Does (h : Handshake) : Call → Bool × Handshake → Prop where
  | issues {now : Time} {nonce : Bytes} : h.state = .unauthenticated →
      Does h (.issue now nonce) (true,
        { h with challenge := some { nonce, issuedAt := now }, state := .challengeIssued })
  | answers {nonce : Bytes} {mine : Option Fingerprint} : h.answered = false →
      Does h (.answer nonce mine) (true, { h with answered := true })
  | verifies {c : Challenge} {peer : Option Fingerprint} : h.state = .challengeIssued →
      h.verified = false → h.challenge = some c →
      Does h (.onResponse (Challenge.answer c.nonce peer) peer) (true,
        { h with challenge := some { c with state := .completed }, verified := true })
  | approves : h.state = .challengeIssued → h.verified = true →
      Does h .approve (true, { h with state := .authenticated })
  | fails {x : Call} : ¬ Breaks (x, false) → Does h x (false, h)
  | breaks {x : Call} {b : Bool} {h' : Handshake} : Breaks (x, b) → Rejects h h' → Does h x (b, h')

theorem rejects_reject (h : Handshake) (cause : AuthError) : Rejects h (h.reject cause) where
  state := ⟨cause, rfl⟩
  verified := rfl
  answered := rfl
  completed := by
    cases hc : h.challenge with
    | none => simp [reject, completed, hc]
    | some c =>
      simp only [reject, completed, hc, Option.map_some, Option.any_some, Challenge.expire]
      split <;> simp_all
  issued := by
    cases hc : h.challenge with
    | none => simp [reject, issued?, hc]
    | some c =>
      simp only [reject, issued?, hc, Option.map_some, Challenge.expire]
      split <;> rfl
  timeout := rfl

/-- A handshake is rejected with its challenge settled, but not completed. -/
theorem rejects_settled {c : Challenge} (hc : h.challenge = some c) {state : Challenge.State}
    (hstate : state = .completed ↔ c.state = .completed) (e : AuthError) :
    Rejects h ({ h with challenge := some { c with state } }.reject e) := by
  have hrejects := rejects_reject { h with challenge := some { c with state } } e
  exact
    { state := hrejects.state
      verified := rfl
      answered := rfl
      completed := by
        rw [hrejects.completed]
        simp [completed, hc, hstate]
      issued := by
        rw [hrejects.issued]
        simp [issued?, hc]
      timeout := rfl }

/-- An answer that comes while none was right is judged by the challenge. -/
theorem onResponse_of_error {c c' : Challenge} {given : Bytes} {peer : Option Fingerprint}
    {e : AuthError} (hstate : h.state = .challengeIssued) (hverified : h.verified = false)
    (hc : h.challenge = some c) (herror : c.verify given peer = (.error e, c')) :
    h.onResponse given peer = (.error e, { h with challenge := some c' }.reject e) := by
  rw [onResponse, if_neg (by simp [hstate, hverified]), hc]
  simp only [herror]

theorem does_onResponse (h : Handshake) (given : Bytes) (peer : Option Fingerprint) :
    Does h (.onResponse given peer) (h.call (.onResponse given peer)) := by
  have broken : ∀ (e : AuthError) (h' : Handshake), h.onResponse given peer = (.error e, h') →
      Rejects h h' → Does h (.onResponse given peer) (h.call (.onResponse given peer)) := by
    intro e h' heq hrejects
    have hcall : h.call (.onResponse given peer) = (false, h') := by
      simp [call, heq, Except.isOk, Except.toBool]
    rw [hcall]
    exact .breaks trivial hrejects
  by_cases hclosed : h.state ≠ .challengeIssued ∨ h.verified = true
  · exact broken _ _ (by rw [onResponse, if_pos hclosed]) (rejects_reject h .malformed)
  · obtain ⟨hstate, hverified⟩ := not_or.1 hclosed
    rw [Decidable.not_not] at hstate
    rw [Bool.not_eq_true] at hverified
    cases hc : h.challenge with
    | none =>
      refine broken .malformed _ ?_ (rejects_reject h .malformed)
      rw [onResponse, if_neg hclosed, hc]
    | some c =>
      by_cases hissued : c.state = .issued
      · obtain ⟨rfl, hok⟩ | ⟨e, herror⟩ := Challenge.verify_of_issued hissued given peer
        · have hcall : h.call (.onResponse (Challenge.answer c.nonce peer) peer) = (true,
              { h with challenge := some { c with state := .completed }, verified := true }) := by
            simp [call, onResponse, hstate, hverified, hc, hok, Except.isOk, Except.toBool]
          rw [hcall]
          exact .verifies hstate hverified hc
        · exact broken _ _ (onResponse_of_error hstate hverified hc herror)
            (rejects_settled hc (by simp [hissued]) e)
      · exact broken _ _
          (onResponse_of_error hstate hverified hc (Challenge.verify_of_settled hissued given peer))
          (rejects_settled hc Iff.rfl .malformed)

theorem does_call (h : Handshake) (x : Call) : Does h x (h.call x) := by
  cases x with
  | issue now nonce =>
    by_cases hstate : h.state = .unauthenticated
    · simp only [call, issue, hstate, if_true, Option.isSome_some]
      exact .issues hstate
    · simp only [call, issue, hstate, if_false, Option.isSome_none]
      exact .fails id
  | answer nonce mine =>
    by_cases hrefused : h.answered = true ∨ nonce.length ≠ Challenge.nonceLength
    · simp only [call, answer, hrefused, if_true, Except.isOk, Except.toBool]
      exact .fails id
    · simp only [call, answer, hrefused, if_false, Except.isOk, Except.toBool]
      exact .answers (by simpa using (not_or.1 hrefused).1)
  | onResponse given peer => exact does_onResponse h given peer
  | approve =>
    cases hwaits : h.awaitingDecision with
    | true =>
      simp only [call, approve, hwaits, if_true, Except.isOk, Except.toBool]
      rw [awaitingDecision, Bool.and_eq_true, beq_iff_eq] at hwaits
      exact .approves hwaits.1 hwaits.2
    | false =>
      simp only [call, approve, hwaits, Bool.false_eq_true, if_false, Except.isOk, Except.toBool]
      exact .fails id
  | reject cause => exact .breaks trivial (rejects_reject h cause)
  | expire => exact .breaks trivial (rejects_reject h .timeout)

/-! ## A handshake that was rejected -/

theorem rejected_of_does {r : Bool × Handshake} (hdoes : Does h x r) {cause : AuthError}
    (hstate : h.state = .rejected cause) : ∃ cause', r.2.state = .rejected cause' := by
  cases hdoes with
  | issues hopen | verifies hopen | approves hopen =>
    rw [hstate] at hopen
    cases hopen
  | answers | fails => exact ⟨cause, hstate⟩
  | breaks _ hrejects => exact hrejects.state

theorem Run.rejected {first : Handshake} (hrun : Run first log h) {cause : AuthError}
    (hfirst : first.state = .rejected cause) : ∃ cause', h.state = .rejected cause' := by
  induction hrun with
  | start => exact ⟨cause, hfirst⟩
  | call x _ ih =>
    obtain ⟨cause', hstate⟩ := ih
    exact rejected_of_does (does_call _ x) hstate

/-! ## Each call succeeds once -/

/-- What a call needs in order to succeed is used up. -/
def spent (h : Handshake) : Kind → Prop
  | .issue => h.state ≠ .unauthenticated
  | .answer => h.answered = true
  | .onResponse => h.verified = true
  | .approve => h.state = .authenticated ∨ ∃ cause, h.state = .rejected cause

/-- A call that succeeds needs what was not used up, and uses it up; nothing gives it back. -/
theorem spends_of_does {r : Bool × Handshake} (hdoes : Does h x r) (k : Kind) :
    (h.spent k → r.2.spent k) ∧
      (x.kind? = some k → r.1 = true → ¬ h.spent k ∧ r.2.spent k) := by
  cases hdoes with
  | issues hstate =>
    cases k <;> simp [spent, Call.kind?, hstate]
  | answers hanswered =>
    cases k <;> simp [spent, Call.kind?, hanswered]
  | verifies hstate hverified =>
    cases k <;> simp [spent, Call.kind?, hstate, hverified]
  | approves hstate =>
    cases k <;> simp [spent, Call.kind?, hstate]
  | fails => exact ⟨id, fun _ hb => by cases hb⟩
  | @breaks x b h' hbreaks hrejects =>
    obtain ⟨cause, hstate⟩ := hrejects.state
    refine ⟨?_, fun hk hb => ?_⟩
    · cases k <;> simp [spent, hstate, hrejects.verified, hrejects.answered]
    · subst hb
      cases x <;> cases hk
      all_goals cases hbreaks

theorem Run.successes_le {first : Handshake} (hrun : Run first log h) (k : Kind) :
    successes k log ≤ 1 ∧ (¬ h.spent k → successes k log = 0) := by
  -- As long as what a call needs is not used up, no call of the kind has succeeded.
  induction hrun with
  | start => simp [successes]
  | @call log h x _ ih =>
    obtain ⟨hone, hnone⟩ := ih
    obtain ⟨hkeeps, hspends⟩ := spends_of_does (does_call h x) k
    rw [successes, List.countP_append, List.countP_singleton]
    rw [successes] at hone hnone
    split
    · rename_i hsuccess
      rw [Bool.and_eq_true, decide_eq_true_eq] at hsuccess
      obtain ⟨hfree, hused⟩ := hspends hsuccess.1 hsuccess.2
      rw [hnone hfree]
      exact ⟨Nat.le_refl 1, fun hfree' => absurd hused hfree'⟩
    · exact ⟨hone, fun hfree => hnone fun hused => hfree (hkeeps hused)⟩

/-! ## How far a handshake is -/

/-- How far a handshake is, and the calls that led there. -/
inductive Course (log : List (Call × Bool)) (h : Handshake) : Prop where
  | untouched : h.state = .unauthenticated → h.challenge = none → h.verified = false →
      (∀ e ∈ log, ¬ Breaks e) → Course log h
  | waiting {c : Challenge} {before after : List (Call × Bool)} : h.state = .challengeIssued →
      h.challenge = some c → c.state = .issued → h.verified = false → (∀ e ∈ log, ¬ Breaks e) →
      log = before ++ (.issue c.issuedAt c.nonce, true) :: after → Course log h
  | verified {c : Challenge} {peer : Option Fingerprint}
      {before between after : List (Call × Bool)} :
      h.state = .challengeIssued → h.challenge = some c → c.state = .completed →
      h.verified = true → (∀ e ∈ log, ¬ Breaks e) →
      log = before ++ (.issue c.issuedAt c.nonce, true) :: (between ++
        (.onResponse (Challenge.answer c.nonce peer) peer, true) :: after) → Course log h
  | authenticated : h.state = .authenticated → h.verified = true → h.completed = true →
      InOrder log → Course log h
  | rejected {cause : AuthError} :
      h.state = .rejected cause → h.verified = h.completed → Course log h

theorem not_breaks_snoc {e : Call × Bool} (hlog : ∀ e ∈ log, ¬ Breaks e) (he : ¬ Breaks e) :
    ∀ e' ∈ log ++ [e], ¬ Breaks e' := by
  intro e' hmem
  obtain hold | hnew := List.mem_append.1 hmem
  · exact hlog e' hold
  · rw [List.mem_singleton.1 hnew]
    exact he

/-- The verified mark stands if and only if the challenge is completed. -/
theorem Course.verified_eq (hcourse : Course log h) : h.verified = h.completed := by
  cases hcourse with
  | untouched _ hc hverified => simp [completed, hc, hverified]
  | waiting _ hc hstate hverified => simp [completed, hc, hstate, hverified]
  | verified _ hc hstate hverified => simp [completed, hc, hstate, hverified]
  | authenticated _ hverified hcompleted => rw [hcompleted, hverified]
  | rejected _ heq => exact heq

/-- A call that moves nothing leaves a handshake as far as it was. -/
theorem Course.snoc (hcourse : Course log h) {e : Call × Bool} (he : ¬ Breaks e)
    (hstate : h'.state = h.state) (hchallenge : h'.challenge = h.challenge)
    (hverified : h'.verified = h.verified) : Course (log ++ [e]) h' := by
  cases hcourse with
  | untouched hs hc hv hlog =>
    exact .untouched (hstate.trans hs) (hchallenge.trans hc) (hverified.trans hv)
      (not_breaks_snoc hlog he)
  | waiting hs hc hi hv hlog heq =>
    exact .waiting (hstate.trans hs) (hchallenge.trans hc) hi (hverified.trans hv)
      (not_breaks_snoc hlog he) (by rw [heq, List.append_assoc, List.cons_append])
  | verified hs hc hi hv hlog heq =>
    exact .verified (hstate.trans hs) (hchallenge.trans hc) hi (hverified.trans hv)
      (not_breaks_snoc hlog he)
      (by rw [heq, List.append_assoc, List.cons_append, List.append_assoc, List.cons_append])
  | authenticated hs hv hc horder =>
    obtain ⟨hlog, before, now, nonce, between, peer, after, rest, heq⟩ := horder
    refine .authenticated (hstate.trans hs) (hverified.trans hv)
      (by rw [completed, hchallenge]; exact hc)
      ⟨not_breaks_snoc hlog he, before, now, nonce, between, peer, after, rest ++ [e], ?_⟩
    rw [heq]
    simp only [List.append_assoc, List.cons_append]
  | rejected hs heq =>
    refine .rejected (hstate.trans hs) ?_
    rw [hverified, heq, completed, completed, hchallenge]

theorem Course.of_does (hcourse : Course log h) {r : Bool × Handshake} (hdoes : Does h x r) :
    Course (log ++ [(x, r.1)]) r.2 := by
  -- Each call is possible in one stage only, and leads to the next.
  cases hdoes with
  | issues hstate =>
    cases hcourse with
    | untouched _ _ hverified hlog =>
      exact .waiting rfl rfl rfl hverified (not_breaks_snoc hlog id) rfl
    | waiting hs | verified hs | authenticated hs | rejected hs =>
      exact nomatch hs.symm.trans hstate
  | answers => exact hcourse.snoc id rfl rfl rfl
  | @verifies c peer hstate hverified hc =>
    cases hcourse with
    | @waiting c' before after _ hc' _ _ hlog heq =>
      cases hc'.symm.trans hc
      have hall : log ++ [(.onResponse (Challenge.answer c.nonce peer) peer, true)] =
          before ++ (.issue c.issuedAt c.nonce, true) ::
            (after ++ [(.onResponse (Challenge.answer c.nonce peer) peer, true)]) := by
        rw [heq, List.append_assoc, List.cons_append]
      exact .verified hstate rfl rfl rfl (not_breaks_snoc hlog id) hall
    | untouched hs | authenticated hs | rejected hs => exact nomatch hs.symm.trans hstate
    | verified _ _ _ hv => exact nomatch hv.symm.trans hverified
  | approves hstate hverified =>
    cases hcourse with
    | @verified c peer before between after _ hc hcompleted _ hlog heq =>
      refine .authenticated rfl hverified (by simp [completed, hc, hcompleted])
        ⟨not_breaks_snoc hlog id, before, c.issuedAt, c.nonce, between, peer, after, [], ?_⟩
      rw [heq]
      simp only [List.append_assoc, List.cons_append]
    | untouched hs | authenticated hs | rejected hs => exact nomatch hs.symm.trans hstate
    | waiting _ _ _ hv => exact nomatch hv.symm.trans hverified
  | fails hkeeps => exact hcourse.snoc hkeeps rfl rfl rfl
  | breaks _ hrejects =>
    obtain ⟨cause, hstate⟩ := hrejects.state
    refine .rejected hstate ?_
    rw [hrejects.verified, hrejects.completed, hcourse.verified_eq]

/-- The calls that succeeded say whether a challenge is out, when it was issued and which. -/
theorem issued_of_does {r : Bool × Handshake} (hcourse : Course log h) (hdoes : Does h x r)
    {now : Time} {nonce : Bytes} :
    r.2.issued? = some (now, nonce) ↔
      h.issued? = some (now, nonce) ∨ (x, r.1) = (.issue now nonce, true) := by
  cases hdoes with
  | issues hstate =>
    cases hcourse with
    | untouched _ hc => simp [issued?, hc]
    | waiting hs | verified hs | authenticated hs | rejected hs =>
      exact nomatch hs.symm.trans hstate
  | answers => simp [issued?]
  | verifies _ _ hc => simp [issued?, hc]
  | approves => simp [issued?]
  | fails => simp
  | breaks hbreaks hrejects =>
    rw [hrejects.issued]
    refine ⟨.inl, fun hor => hor.elim id fun heq => ?_⟩
    rw [heq] at hbreaks
    cases hbreaks

theorem timeout_of_does {r : Bool × Handshake} (hdoes : Does h x r) : r.2.timeout = h.timeout := by
  cases hdoes with
  | issues | answers | verifies | approves | fails => rfl
  | breaks _ hrejects => exact hrejects.timeout

/-- A handshake in a run of calls: how far it is, which challenge it issued, and the time it gives
the peer. -/
theorem Run.course {timeout : Nat} (hrun : Run (fresh timeout) log h) :
    Course log h ∧ h.timeout = timeout ∧
      ∀ now nonce, (.issue now nonce, true) ∈ log ↔ h.issued? = some (now, nonce) := by
  induction hrun with
  | start => exact ⟨.untouched rfl rfl rfl (by simp), rfl, by simp [issued?, fresh]⟩
  | @call log h x _ ih =>
    obtain ⟨hcourse, htimeout, hissued⟩ := ih
    have hdoes := does_call h x
    refine ⟨hcourse.of_does hdoes, (timeout_of_does hdoes).trans htimeout, fun now nonce => ?_⟩
    rw [List.mem_append, List.mem_singleton, hissued, issued_of_does hcourse hdoes,
      eq_comm (a := (Call.issue now nonce, true))]

/-! ## What holds in every run of calls -/

/-- The answer is due while the challenge is out and nothing has settled it. -/
theorem Course.responseDeadline_eq (hcourse : Course log h) {t : Time} :
    h.responseDeadline = some t ↔
      (∃ issue, h.issued? = some issue ∧ t = issue.1 + h.timeout) ∧
        h.verified = false ∧ ∀ cause, h.state ≠ .rejected cause := by
  cases hcourse with
  | untouched hs hc => simp [responseDeadline, issued?, hs, hc]
  | waiting hs hc _ hv => simp [responseDeadline, issued?, hs, hc, hv, eq_comm]
  | verified hs hc _ hv => simp [responseDeadline, hs, hc, hv]
  | authenticated hs hv => simp [responseDeadline, hs, hv]
  | rejected hs => simp [responseDeadline, hs]

theorem Course.inOrder (hcourse : Course log h) (hstate : h.state = .authenticated) :
    InOrder log := by
  cases hcourse with
  | authenticated _ _ _ horder => exact horder
  | untouched hs | waiting hs | verified hs | rejected hs => exact nomatch hs.symm.trans hstate

theorem completed_iff : h.completed = true ↔ ∃ c, h.challenge = some c ∧ c.state = .completed := by
  cases hc : h.challenge <;> simp [completed, hc]

/-- However the calls on a handshake are ordered: it is authenticated only in order, stays rejected,
lets each call succeed once, and ties its deadline and its verified mark to its challenge. Of a
challenge alone at most one answer is accepted, and it never leaves a terminal state. -/
theorem authenticated_in_order {timeout : Nat} {log : List (Call × Bool)} {h : Handshake}
    (hrun : Run (fresh timeout) log h) :
    (h.state = .authenticated → InOrder log) ∧
      (∀ cause, h.state = .rejected cause → ∀ later h', Run h later h' →
        ∃ cause', h'.state = .rejected cause') ∧
      (∀ k, successes k log ≤ 1) ∧
      (∀ t, h.responseDeadline = some t ↔
        (∃ now nonce, (.issue now nonce, true) ∈ log ∧ t = now + timeout) ∧
          h.verified = false ∧ ∀ cause, h.state ≠ .rejected cause) ∧
      (h.verified = true ↔ ∃ c, h.challenge = some c ∧ c.state = .completed) ∧
      ∀ c calls c', Challenge.Run c calls c' →
        calls.countP (·.2) ≤ 1 ∧ (c.state ≠ .issued → c'.state = c.state) := by
  obtain ⟨hcourse, htimeout, hissued⟩ := hrun.course
  refine ⟨hcourse.inOrder, fun cause hstate later h' hlater => hlater.rejected hstate,
    fun k => (hrun.successes_le k).1, fun t => ?_, ?_, fun c calls c' hcalls =>
      ⟨hcalls.settles.2.1, hcalls.settles.1⟩⟩
  · rw [hcourse.responseDeadline_eq, htimeout]
    simp only [hissued, Prod.exists]
  · rw [hcourse.verified_eq, completed_iff]

theorem authenticated_in_order_of_approved :
    let log : List (Call × Bool) := [(.issue 5 [1], true),
      (.onResponse (Challenge.answer [1] none) none, true), (.approve, true)]
    ∃ h, Run (fresh 10) log h ∧ h.state = .authenticated ∧ InOrder log ∧
      successes .approve log ≤ 1 ∧ h.responseDeadline = none := by
  have hrun := (((@Run.start (fresh 10)).call (.issue 5 [1])).call
    (.onResponse (Challenge.answer [1] none) none)).call .approve
  simp only [call, issue, fresh, onResponse, Challenge.verify, approve, awaitingDecision] at hrun
  simp [Except.isOk, Except.toBool] at hrun
  have hall := authenticated_in_order hrun
  exact ⟨_, hrun, rfl, hall.1 rfl, hall.2.2.1 .approve, rfl⟩

end Handshake

end SharedClipboard
