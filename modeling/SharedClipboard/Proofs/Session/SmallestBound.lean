import SharedClipboard.Node.Basic
import SharedClipboard.Proofs.Packet.Stream
import SharedClipboard.Proofs.Session.Admission

/-!
# The smallest bound under which nodes can join

**Theorem (`joining_needs_room`).** A challenge and the answer to one have a field of 32 bytes each.
Under a configuration whose bound on a field is 32 or more, each of them is received as it was sent,
by a receiver with the same configuration. Under a smaller one each of them is refused, and a
session never admits its peer, whatever bytes the peer sends.

`Config.validate` asks for a bound of 1 at least, so there are configurations that it accepts and
under which nobody can join (`bound_of_31_is_accepted`).

A session that admits its peer was given the right answer first (`Stands`, from the lemmas about
admission), and that is 32 bytes long; so no such answer comes through a codec with a smaller bound.
-/

namespace SharedClipboard

open Session (Life Moment Stands Upright admissions firstAnswer?)

/-! ## The length of a challenge -/

/-- A packet whose only field is as long as a challenge fits if the bound is. -/
theorem Codec.fits_of_nonceLength {c : Codec} {p : Packet} {f : Bytes} (hp : p.fields = [f])
    (hf : f.length = Challenge.nonceLength) (hc : Challenge.nonceLength ≤ c.maxPayload) :
    c.Fits p := by
  intro f' hf'
  rw [hp, List.mem_singleton] at hf'
  rw [hf', hf]
  exact ⟨hc, by decide⟩

/-! ## What is said in a handshake -/

namespace Handshake

/-- The packet is a challenge that a handshake issues, or the answer that one gives. -/
inductive Says : Packet → Prop where
  | challenge {h h' : Handshake} {now : Time} {nonce : Bytes} {p : Packet}
      (length : nonce.length = Challenge.nonceLength) :
      h.issue now nonce = (some p, h') → Says p
  | answer {h h' : Handshake} {nonce : Bytes} {mine : Option Fingerprint} {p : Packet} :
      h.answer nonce mine = (.ok p, h') → Says p

theorem Says.fields {p : Packet} (h : Says p) :
    ∃ f, p.fields = [f] ∧ f.length = Challenge.nonceLength := by
  cases h with
  | @challenge _ _ _ nonce _ length hissued =>
    unfold issue at hissued
    split at hissued
    · cases hissued
      exact ⟨nonce, rfl, length⟩
    · cases hissued
  | @answer _ _ nonce mine _ hanswered =>
    unfold Handshake.answer at hanswered
    split at hanswered
    · cases hanswered
    · cases hanswered
      exact ⟨Challenge.answer nonce mine, rfl, Challenge.length_answer nonce mine⟩

/-- What is said in a handshake fits exactly if the bound is as long as a challenge. -/
theorem Says.fits {p : Packet} (h : Says p) {c : Codec}
    (hc : Challenge.nonceLength ≤ c.maxPayload) : c.Fits p := by
  obtain ⟨f, hp, hf⟩ := h.fields
  exact Codec.fits_of_nonceLength hp hf hc

theorem Says.refused {p : Packet} (h : Says p) {c : Codec}
    (hc : c.maxPayload < Challenge.nonceLength) (rest : Bytes) :
    (FrameReader.atTag.feed c (p.encode ++ rest)).1 =
      .done (.undecodable (.lengthOverflow Challenge.nonceLength c.maxPayload)) := by
  obtain ⟨f, hp, hf⟩ := h.fields
  have hfields : ∀ g ∈ p.fields, g = f := by simp [hp]
  have hlimit : ∀ g ∈ p.fields, g.length < Bytes.lengthLimit := fun g hg => by
    rw [hfields g hg, hf]
    decide
  have hlong : ¬ c.Fits p := fun hfits =>
    absurd (hfits f (by simp [hp])).1 (Nat.not_le.2 (hf ▸ hc))
  obtain ⟨g, hg, -, hrefused⟩ := FrameReader.feed_of_tooLong hlimit hlong rest
  rwa [hfields g hg, hf] at hrefused

end Handshake

/-! ## Sessions that hear through a codec -/

namespace Session

/-- Every packet that came was decoded by the codec. -/
def HeardThrough (c : Codec) (log : List Moment) : Prop :=
  ∀ m ∈ log, ∀ p, m.input = .received (.packet p) → ∃ b, c.decode b = .ok p

variable {c : Codec} {log : List Moment} {m : Moment}

theorem HeardThrough.left (h : HeardThrough c (log ++ [m])) : HeardThrough c log :=
  fun m' hm' => h m' (List.mem_append_left _ hm')

/-- An answer that came is no longer than the bound. -/
theorem HeardThrough.length_answer (h : HeardThrough c log) {given : Bytes}
    (hgiven : firstAnswer? log = some given) : given.length ≤ c.maxPayload := by
  obtain ⟨m, hm, hanswer⟩ := List.exists_of_findSome?_eq_some hgiven
  unfold Moment.answer? at hanswer
  split at hanswer
  · rename_i answer hinput
    cases hanswer
    obtain ⟨b, hb⟩ := h m hm _ hinput
    exact ((Codec.encode_of_decode hb).2 given (by simp [Packet.fields])).1
  · cases hanswer

/-- Under a bound that is shorter than an answer, the first answer is never the right one. -/
theorem HeardThrough.not_right (h : HeardThrough c log)
    (hc : c.maxPayload < Challenge.nonceLength) (nonce : Bytes) (peer : Option Fingerprint) :
    firstAnswer? log ≠ some (Challenge.answer nonce peer) := by
  intro hright
  have hle := h.length_answer hright
  rw [Challenge.length_answer] at hle
  exact absurd hle (Nat.not_le.2 hc)

/-- A session that stands and was never given the right answer has admitted nobody. -/
theorem admissions_of_stands {direction : Direction} {peer : Option Fingerprint} {nonce : Bytes}
    {next : Except CloseReason Session} (h : Stands direction peer nonce log m next)
    (hnone : admissions log = 0)
    (hwrong : firstAnswer? (log ++ [m]) ≠ some (Challenge.answer nonce peer)) :
    admissions (log ++ [m]) = 0 := by
  have hnot : Action.authenticated ∉ m.actions := fun hmem => hwrong (h.1.1 hmem).1
  rw [admissions_snoc, hnone, List.count_eq_zero.2 hnot]

/-- A session whose codec has no room for an answer admits nobody. -/
theorem admissions_of_heardThrough (hc : c.maxPayload < Challenge.nonceLength)
    (settings : Settings) (direction : Direction) (mine peer : Option Fingerprint) (opened : Time)
    (v : View) (nonce : Bytes) {last : Except CloseReason Session}
    (h : Life ((fresh settings direction mine peer opened).start v nonce) log last)
    (hheard : HeardThrough c log) :
    admissions log = 0 ∧ ∀ s, last = .ok s → Upright direction peer nonce log s := by
  induction h with
  | start => exact ⟨rfl, fun s hs => upright_start settings mine opened v hs⟩
  | turn v' i _ ih =>
    obtain ⟨hnone, hup⟩ := ih hheard.left
    have hstands := stands_step (hup _ rfl) v' i
    exact ⟨admissions_of_stands hstands hnone (hheard.not_right hc nonce peer), hstands.2.2⟩

end Session

/-! ## The bound -/

/-- **Room to join.** If the bound of a configuration is 32 at least, a receiver under it gets every
challenge that is issued and every answer that is given as it was sent, in whatever chunks it comes,
and leaves what comes after it. If the bound is smaller, every one of them is refused as too long,
and a session under the configuration admits nobody, whatever packets come through its codec and
whatever else happens. -/
theorem joining_needs_room (cfg : Config) :
    (Challenge.nonceLength ≤ cfg.maxPayload → ∀ p, Handshake.Says p → ∀ chunks rest,
      chunks.flatten = p.encode ++ rest →
        (receive cfg.codec none .atTag chunks).1 = .packet p ∧
          (receive cfg.codec none .atTag chunks).2.flatten = rest) ∧
    (cfg.maxPayload < Challenge.nonceLength →
      (∀ p, Handshake.Says p → ∀ chunks rest, chunks.flatten = p.encode ++ rest →
        (receive cfg.codec none .atTag chunks).1 =
          .undecodable (.lengthOverflow Challenge.nonceLength cfg.maxPayload)) ∧
      ∀ direction mine peer opened v nonce log last,
        Life ((Session.fresh cfg.sessionSettings direction mine peer opened).start v nonce) log
            last →
          Session.HeardThrough cfg.codec log → admissions log = 0) := by
  refine ⟨fun hroom p hp chunks rest hchunks => ?_,
    fun hroom => ⟨fun p hp chunks rest hchunks => ?_,
    fun direction mine peer opened v nonce log last hlife hheard => ?_⟩⟩
  · obtain ⟨hgot, hrest⟩ := receive_eq_feed cfg.codec none .atTag chunks
    rw [hchunks, FrameReader.feed_encode (hp.fits hroom)] at hgot hrest
    exact ⟨hgot, hrest⟩
  · rw [(receive_eq_feed cfg.codec none .atTag chunks).1, hchunks,
      hp.refused (c := cfg.codec) hroom rest]
    rfl
  · exact (Session.admissions_of_heardThrough (c := cfg.codec) hroom _ _ _ _ _ _ _ hlife
      hheard).1

/-- A configuration with the given bound. -/
def boundedBy (n : Nat) : Config := { Config.default "/home/user" with maxPayload := n }

/-- A connection of a guest to a node under a bound of 31. -/
def tightSession : Session :=
  .fresh (boundedBy 31).sessionSettings .inbound none (some Session.guest) 0

/-- The user lets the guest in before the guest has said anything. -/
theorem life_eager : ∃ last, Life (tightSession.start Session.quietView Session.guestNonce)
    [⟨Session.quietView, .decided true, []⟩] last := by
  have started : Life (tightSession.start Session.quietView Session.guestNonce) []
      (.ok { tightSession with
        handshake := (tightSession.handshake.issue 0 Session.guestNonce).2 }) := .start
  exact ⟨_, started.turn Session.quietView (.decided true)⟩

/-- Under a bound of 32 a challenge comes through, one byte after the other; under a bound of 31 it
does not, and a guest is not admitted although the user consents. -/
theorem joining_needs_room_at_boundary :
    (boundedBy 32).validate = .ok () ∧
      (receive (boundedBy 32).codec none .atTag
        ((Packet.challengeRequest Session.guestNonce).encode.map ([·]))).1 =
          .packet (.challengeRequest Session.guestNonce) ∧
      (boundedBy 31).validate = .ok () ∧
      (receive (boundedBy 31).codec none .atTag
        [(Packet.challengeRequest Session.guestNonce).encode]).1 =
          .undecodable (.lengthOverflow 32 31) ∧
      (∃ last, Life (tightSession.start Session.quietView Session.guestNonce)
        [⟨Session.quietView, .decided true, []⟩] last) ∧
      admissions [⟨Session.quietView, .decided true, []⟩] = 0 := by
  have hissued : ((Handshake.fresh 10).issue 0 Session.guestNonce).1 =
      some (.challengeRequest Session.guestNonce) := rfl
  have hsays : Handshake.Says (.challengeRequest Session.guestNonce) :=
    .challenge rfl (Prod.ext hissued rfl)
  obtain ⟨hroom, -⟩ := joining_needs_room (boundedBy 32)
  obtain ⟨-, htight⟩ := joining_needs_room (boundedBy 31)
  obtain ⟨hrefused, hnobody⟩ := htight (by decide)
  obtain ⟨last, hlife⟩ := life_eager
  exact ⟨rfl, (hroom (by decide) _ hsays _ [] (by decide)).1, rfl,
    hrefused _ hsays _ [] (by decide), ⟨last, hlife⟩,
    hnobody _ _ _ _ _ _ _ _ hlife (by simp [Session.HeardThrough])⟩

/-- A configuration with a bound of 31 is accepted, and a receiver under it refuses the challenge
that a node under it issues. -/
theorem bound_of_31_is_accepted :
    ∃ cfg : Config, cfg.validate = .ok () ∧ cfg.maxPayload = 31 ∧
      ∃ p h, (Handshake.fresh cfg.handshakeTimeout).issue 0 (List.replicate 32 7) = (some p, h) ∧
        (receive cfg.codec none .atTag [p.encode]).1 = .undecodable (.lengthOverflow 32 31) :=
  ⟨boundedBy 31, rfl, rfl, _, _, rfl, by decide +kernel⟩

end SharedClipboard
