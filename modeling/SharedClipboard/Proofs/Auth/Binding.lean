import SharedClipboard.Proofs.Auth.Handshake
import SharedClipboard.Proofs.Digest.Inputs

/-!
# What an answer is good for

**Theorem (`accepted_iff_same_nonce_and_certificate`).** A handshake that waits for the answer to
its challenge accepts what a handshake answered, to whatever challenge and with whatever
certificate, exactly when the challenge was this one and the fingerprint is the one that the peer
presents here. Any other answer is a mismatch and ends the handshake. That is as far as the digest
tells the two inputs apart.

Three checks fit together. Only challenges of 32 bytes are answered, and only such challenges are
issued, so the inputs are told apart although nothing separates the challenge from the fingerprint
(`Challenge.answerInput_eq_iff`); an answer is 32 bytes long, so it is compared and not refused for
its length; and a handshake that waits has the challenge that it issued, and this challenge has
settled nothing yet (`Run.waits_with`).
-/

namespace SharedClipboard

open Challenge (presented)

namespace Handshake

variable {log : List (Call × Bool)} {h h' w : Handshake} {timeout : Nat} {now : Time}
  {n m given : Bytes} {f g : Option Fingerprint}

/-- Only a challenge of the right length is answered, and with the answer to it. -/
theorem of_answer_eq_ok (hanswer : h.answer n f = (.ok (.challengeResponse given), h')) :
    n.length = Challenge.nonceLength ∧ given = Challenge.answer n f := by
  unfold answer at hanswer
  split at hanswer
  · cases hanswer
  · rename_i hfirst
    cases hanswer
    exact ⟨Decidable.not_not.1 (not_or.1 hfirst).2, rfl⟩

/-- A handshake that waits for an answer has issued its challenge, and nothing settled it. -/
theorem Run.waits_with (hrun : Run (fresh timeout) log w) (hstate : w.state = .challengeIssued)
    (hverified : w.verified = false) (hissued : (.issue now m, true) ∈ log) :
    w.challenge = some { nonce := m, issuedAt := now } := by
  obtain ⟨hcourse, -, hwhich⟩ := hrun.course
  have hnonce := (hwhich now m).1 hissued
  cases hcourse with
  | @waiting c _ _ _ hc hopen =>
    rw [issued?, hc, Option.map_some, Option.some.injEq, Prod.mk.injEq] at hnonce
    obtain ⟨rfl, rfl⟩ := hnonce
    rw [hc, ← hopen]
  | untouched hs | authenticated hs | rejected hs =>
    rw [hstate] at hs
    cases hs
  | verified _ _ _ hv =>
    rw [hverified] at hv
    cases hv

/-- An answer of the right length is accepted if it is the right one, and otherwise a mismatch. -/
theorem onResponse_of_length {c : Challenge} (hstate : w.state = .challengeIssued)
    (hverified : w.verified = false) (hc : w.challenge = some c) (hopen : c.state = .issued)
    (hlength : given.length = Challenge.answerLength) :
    (given = Challenge.answer c.nonce g ∧ (w.onResponse given g).1 = .ok ()) ∨
      (given ≠ Challenge.answer c.nonce g ∧ (w.onResponse given g).1 = .error .mismatch ∧
        (w.onResponse given g).2.state = .rejected .mismatch) := by
  by_cases hright : given = Challenge.answer c.nonce g
  · refine .inl ⟨hright, ?_⟩
    simp [onResponse, hstate, hverified, hc, Challenge.verify, hopen, ← hright, hlength]
  · have hmismatch : c.verify given g = (.error .mismatch, { c with state := .expired }) := by
      simp [Challenge.verify, hopen, hlength, hright]
    rw [onResponse_of_error hstate hverified hc hmismatch]
    exact .inr ⟨hright, rfl, rfl⟩

/-- **An answer is good for one challenge and one certificate.** A handshake, after any calls, waits
for the answer to the challenge `m` that it issued, from a peer that presents the fingerprint `g`.
It gets what any handshake answered to the challenge `n` with the fingerprint `f`. Unless the digest
takes the two inputs for one, it accepts the answer exactly when `n` is `m` and the fingerprints
have the same bytes, no fingerprint having none; and otherwise it reports a mismatch and is over. -/
theorem accepted_iff_same_nonce_and_certificate (hrun : Run (fresh timeout) log w)
    (hstate : w.state = .challengeIssued) (hverified : w.verified = false)
    (hissued : (.issue now m, true) ∈ log) (hlength : m.length = Challenge.nonceLength)
    (hanswer : h.answer n f = (.ok (.challengeResponse given), h'))
    (hdigest : Sha256.Separates (Challenge.answerInput n f) (Challenge.answerInput m g)) :
    ((w.onResponse given g).1 = .ok () ↔ n = m ∧ presented f = presented g) ∧
      (¬ (n = m ∧ presented f = presented g) → (w.onResponse given g).1 = .error .mismatch ∧
        (w.onResponse given g).2.state = .rejected .mismatch) := by
  obtain ⟨hlength', rfl⟩ := of_answer_eq_ok hanswer
  have hright : Challenge.answer n f = Challenge.answer m g ↔ n = m ∧ presented f = presented g :=
    hdigest.digest_eq_iff.trans (Challenge.answerInput_eq_iff (hlength'.trans hlength.symm) f g)
  rw [← hright]
  obtain ⟨hsame, hok⟩ | ⟨hother, herror, hover⟩ := onResponse_of_length (g := g) hstate hverified
    (hrun.waits_with hstate hverified hissued) rfl (Challenge.length_answer n f)
  · exact ⟨iff_of_true hok hsame, fun hnot => absurd hsame hnot⟩
  · refine ⟨iff_of_false (fun hok => ?_) hother, fun _ => ⟨herror, hover⟩⟩
    rw [herror] at hok
    cases hok

/-- The answer of a tablet is accepted from the tablet. Another peer that hands it on presents a
certificate of its own, and its answer is a mismatch. -/
theorem accepted_iff_same_nonce_and_certificate_relayed :
    let m : Bytes := List.replicate 32 7
    let w := ((fresh 10).issue 5 m).2
    let tablet : Option Fingerprint := some ⟨"tablet"⟩
    (w.onResponse (Challenge.answer m tablet) tablet).1 = .ok () ∧
      (w.onResponse (Challenge.answer m tablet) (some ⟨"relay"⟩)).1 = .error .mismatch := by
  intro m w tablet
  have hrun : Run (fresh 10) [(.issue 5 m, true)] w := .call (.issue 5 m) .start
  have hanswer : (fresh 10).answer m tablet =
      (.ok (.challengeResponse (Challenge.answer m tablet)), { fresh 10 with answered := true }) :=
    rfl
  have hissued : (.issue 5 m, true) ∈ [(Call.issue 5 m, true)] := List.mem_singleton_self _
  have haccepted := accepted_iff_same_nonce_and_certificate (g := tablet) hrun rfl rfl hissued rfl
    hanswer fun _ => rfl
  have hrefused := accepted_iff_same_nonce_and_certificate (g := some ⟨"relay"⟩) hrun rfl rfl
    hissued rfl hanswer fun hdigest => absurd hdigest (by decide +kernel)
  exact ⟨haccepted.1.2 ⟨rfl, rfl⟩, (hrefused.2 fun hsame => absurd hsame.2 (by decide +kernel)).1⟩

end Handshake

end SharedClipboard
