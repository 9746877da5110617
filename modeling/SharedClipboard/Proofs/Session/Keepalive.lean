import SharedClipboard.Node.Basic
import SharedClipboard.Proofs.Session.Exchange
import Mathlib.Data.Bool.Basic

/-!
# Keepalives and their replies

**Theorem (`pings_bounded`).** Every keepalive that fires while an earlier one of its side is not
acknowledged adds at most one ping to the two that can be under way, and if there is no such
keepalive, the sides have sent at most two pings for each keepalive.

The invariant (`Balanced`) compares the pings under way with the sides that wait for one. Without
overlapping keepalives each ping under way to a side that does not wait will be answered, and its
answer finds a side that waits.

A session remembers that it waits, not for how many pings. So when two of its keepalives are out,
the second reply is taken for a keepalive of the peer and answered, nobody waits for this answer,
and from then on each ping is answered by another (`overlapping_keepalives_echo`).
-/

namespace SharedClipboard

namespace Session

/-! ## Turns that have no part in the keepalives -/

/-- The second session is the first with its keepalives where they were. -/
structure KeepsPulse (s s' : Session) : Prop where
  settings : s'.settings = s.settings
  lastReceived : s'.lastReceived = s.lastReceived
  lastPing : s'.lastPing = s.lastPing
  awaitingAck : s'.awaitingAck = s.awaitingAck

/-- The turn has no part in the keepalives: it sends no ping, a session that goes on has them where
they were, and one that ends was not idle. -/
structure Turn.Calm (t : Turn) (s : Session) : Prop where
  silent : t.actions.count (.send .ping) = 0
  next : ∀ s', t.next = .ok s' → s.KeepsPulse s'
  reason : t.next ≠ .error .idle

theorem calm_stop (s : Session) {reason : CloseReason} (h : reason ≠ .idle) :
    (stop reason).Calm s :=
  ⟨rfl, by simp [stop], by simpa [stop] using h⟩

theorem calm_goOn {s s' : Session} {actions : List Action}
    (hsilent : actions.count (.send .ping) = 0) (hs : s.KeepsPulse s') :
    (s'.goOn actions).Calm s where
  silent := hsilent
  next := by
    rintro _ ⟨⟩
    exact hs
  reason := by simp [goOn]

theorem calm_send {s s' : Session} {p : Packet} (v : View) (hp : p ≠ .ping)
    (hs : s.KeepsPulse s') : (s'.send v p).Calm s := by
  obtain hsent | ⟨cause, hstop⟩ := send_cases v p s'
  · rw [hsent]
    exact calm_goOn (by simp [hp]) hs
  · rw [hstop]
    exact calm_stop s (by simp)

theorem calm_promote {s s' : Session} (hs : s.KeepsPulse s') : s'.promote.Calm s := by
  obtain ⟨hsettings, hreceived, hping, hwait⟩ := hs
  unfold promote
  split
  · refine calm_goOn ?_ ⟨hsettings, hreceived, hping, hwait⟩
    cases s'.peerFingerprint <;> simp
  · exact calm_goOn rfl ⟨hsettings, hreceived, hping, hwait⟩

theorem calm_onResponse (v : View) (s : Session) (given : Bytes) :
    (s.onResponse v given).Calm s := by
  unfold onResponse
  split
  · exact calm_stop s (by simp)
  · simp only
    split
    · exact calm_promote ⟨rfl, rfl, rfl, rfl⟩
    · exact calm_goOn rfl ⟨rfl, rfl, rfl, rfl⟩

theorem calm_onChallenge (v : View) (s : Session) (nonce : Bytes) :
    (s.onChallenge v nonce).Calm s := by
  unfold onChallenge Handshake.answer
  split
  · exact calm_stop s (by simp)
  · rename_i heq
    split at heq
    · cases heq
    · cases heq
      exact calm_send v (by simp) ⟨rfl, rfl, rfl, rfl⟩

theorem calm_start (v : View) (nonce : Bytes) (s : Session) : (s.start v nonce).Calm s := by
  unfold start Handshake.issue
  split
  · rename_i heq
    split at heq
    · cases heq
      exact calm_send v (by simp) ⟨rfl, rfl, rfl, rfl⟩
    · cases heq
  · exact calm_goOn rfl ⟨rfl, rfl, rfl, rfl⟩

/-- A packet that is no ping only makes the session note that it heard from its peer. -/
theorem calm_packet (v : View) (s : Session) {p : Packet} (hp : p ≠ .ping) :
    (s.step v (.received (.packet p))).Calm { s with lastReceived := v.now } := by
  simp only [step, onReceived, onPacket]
  split
  · exact calm_stop _ (by simp [CloseReason.lateHandshake])
  · cases p with
    | ping => exact absurd rfl hp
    | challengeRequest nonce => exact calm_onChallenge v _ nonce
    | challengeResponse given => exact calm_onResponse v _ given
    | syncRequest mime data => exact calm_goOn (by simp) ⟨rfl, rfl, rfl, rfl⟩
    | invalid => exact calm_stop _ (by simp)

/-- Only a packet, a keepalive and the idle timer have to do with the keepalives. -/
theorem calm_step (v : View) (s : Session) {i : Input} (hpacket : ∀ p, i ≠ .received (.packet p))
    (hkeep : i ≠ .timer .keepalive) (hidle : i ≠ .timer .idle) : (s.step v i).Calm s := by
  cases i with
  | kicked => exact calm_stop s (by simp)
  | writeFailed e => exact calm_stop s (by simp)
  | received r =>
    cases r with
    | packet p => exact absurd rfl (hpacket p)
    | finished => exact calm_stop s (by simp)
    | failed e => exact calm_stop s (by simp)
    | undecodable e =>
      -- The peer is told that its bytes were no packet, if there is room, and that is no ping.
      refine ⟨?_, by simp [step, onReceived], by simp [step, onReceived]⟩
      show (if v.room = .free then [Action.send .invalid] else []).count (.send .ping) = 0
      split <;> rfl
  | decided allow =>
    cases allow with
    | false => exact calm_stop s (by simp)
    | true =>
      have hpromote : ({ s with decisionDue := none }.promote).Calm s :=
        calm_promote ⟨rfl, rfl, rfl, rfl⟩
      exact hpromote
  | timer t =>
    cases t with
    | decision | response => exact calm_stop s (by simp)
    | idle => exact absurd rfl hidle
    | keepalive => exact absurd rfl hkeep

theorem step_of_ping (v : View) (s : Session) :
    s.step v (.received (.packet .ping)) = { s with lastReceived := v.now }.onPing v := by
  simp [step, onReceived, onPacket, PacketType.isHandshake, Packet.type]

/-! ## Pings in one turn -/

/-- 1 if the next ping is taken for a reply, and for a session that has ended. -/
def waitsFor : Except CloseReason Session → Nat
  | .ok s => s.awaitingAck.toNat
  | .error _ => 1

theorem waitsFor_le (e : Except CloseReason Session) : waitsFor e ≤ 1 := by
  cases e with
  | ok s => exact Bool.toNat_le _
  | error _ => exact Nat.le_refl 1

/-- What a turn of a session means for the pings. -/
structure Tally (s : Session) (i : Input) (t : Turn) : Prop where
  /-- A ping that is sent takes the place of one that came or of the session that did not wait for
  one. -/
  balance : t.actions.count (.send .ping) + s.awaitingAck.toNat ≤ waitsFor t.next +
    (if i = .received (.packet .ping) then 1 else 0) +
    if i = .timer .keepalive ∧ s.awaitingAck = true then 1 else 0
  cause : t.actions.count (.send .ping) ≤ (if i = .received (.packet .ping) then 1 else 0) +
    if i = .timer .keepalive then 1 else 0
  /-- A session that waits does not answer. -/
  answer : t.actions.count (.send .ping) + (if i = .received (.packet .ping) then 1 else 0) +
    s.awaitingAck.toNat ≤ 2 + if i = .timer .keepalive then 1 else 0

theorem tally_stop (s : Session) (i : Input) (reason : CloseReason) : Tally s i (stop reason) := by
  have hone := Bool.toNat_le s.awaitingAck
  constructor <;> simp only [stop, waitsFor, List.count_nil]
  · omega
  · omega
  · split <;> omega

theorem tally_of_calm (s : Session) (i : Input) {s₀ : Session} {t : Turn} (h : t.Calm s₀)
    (hs : s₀.awaitingAck = s.awaitingAck) : Tally s i t := by
  have hwaits : s.awaitingAck.toNat ≤ waitsFor t.next := by
    cases hnext : t.next with
    | ok s' =>
      have hsame : s'.awaitingAck = s.awaitingAck := (h.next s' hnext).awaitingAck.trans hs
      exact Nat.le_of_eq (congrArg Bool.toNat hsame.symm)
    | error _ => exact Bool.toNat_le _
  have hone := Bool.toNat_le s.awaitingAck
  constructor <;> rw [h.silent]
  · omega
  · omega
  · split <;> omega

theorem tally_onPing {s s' : Session} (v : View) (hs : s'.awaitingAck = s.awaitingAck) :
    Tally s (.received (.packet .ping)) (s'.onPing v) := by
  unfold onPing
  by_cases hwait : s'.awaitingAck = true
  · rw [if_pos hwait]
    constructor <;> simp [goOn, waitsFor, ← hs, hwait]
  · have hnot : s'.awaitingAck = false := by simpa using hwait
    rw [if_neg hwait]
    obtain hsent | ⟨cause, hstop⟩ := send_cases v .ping { s' with lastPing := v.now }
    · rw [hsent]
      constructor <;> simp [goOn, waitsFor, ← hs, hnot]
    · rw [hstop]
      exact tally_stop s _ _

theorem tally_keepalive (v : View) (s : Session) :
    Tally s (.timer .keepalive) (s.onTimer v .keepalive) := by
  rw [onTimer]
  obtain hsent | ⟨cause, hstop⟩ :=
    send_cases v .ping { s with lastPing := v.now, awaitingAck := true }
  · rw [hsent]
    constructor <;> cases hwait : s.awaitingAck <;> simp [goOn, waitsFor]
  · rw [hstop]
    exact tally_stop s _ _

theorem tally_step (v : View) (s : Session) (i : Input) : Tally s i (s.step v i) := by
  cases i with
  | received r =>
    cases r with
    | packet p =>
      by_cases hp : p = .ping
      · rw [hp, step_of_ping]
        exact tally_onPing v rfl
      · exact tally_of_calm s _ (calm_packet v s hp) rfl
    | finished | failed _ | undecodable _ =>
      exact tally_of_calm s _ (calm_step v s (by simp) (by simp) (by simp)) rfl
  | timer k =>
    cases k with
    | keepalive => exact tally_keepalive v s
    | decision | response | idle => exact tally_stop s _ _
  | kicked | writeFailed _ | decided _ =>
    exact tally_of_calm s _ (calm_step v s (by simp) (by simp) (by simp)) rfl

theorem step_ping {s : Session} {v : View} (hs : s.awaitingAck = false) (hroom : v.room = .free) :
    s.step v (.received (.packet .ping)) =
      { s with lastReceived := v.now, lastPing := v.now }.goOn [.send .ping] := by
  simp [step_of_ping, onPing, Session.send, hs, hroom]

end Session

namespace Exchange

open Session

variable {first x x' last : Exchange} {log : List Event} {a : Bool}

/-! ## Counting -/

def pingsSent (log : List Event) : Nat := (log.flatMap (·.actions)).count (.send .ping)

def keepalives (log : List Event) : Nat := log.countP fun e => e.input = .timer .keepalive

/-- The number of keepalives that fired while an earlier one was not acknowledged. -/
def overlaps (log : List Event) : Nat :=
  log.countP fun e => e.input = .timer .keepalive ∧ e.before.awaitingAck = true

def transit (x : Exchange) (a : Bool) : Nat := (x.link a).count .ping

def waits (x : Exchange) (a : Bool) : Nat := waitsFor (x.side a)

theorem pingsSent_snoc (log : List Event) (e : Event) :
    pingsSent (log ++ [e]) = pingsSent log + e.actions.count (.send .ping) := by
  simp [pingsSent, List.flatMap_append]

theorem keepalives_snoc (log : List Event) (e : Event) :
    keepalives (log ++ [e]) = keepalives log + if e.input = .timer .keepalive then 1 else 0 := by
  simp [keepalives, List.countP_append, List.countP_singleton]

theorem overlaps_snoc (log : List Event) (e : Event) :
    overlaps (log ++ [e]) = overlaps log +
      if e.input = .timer .keepalive ∧ e.before.awaitingAck = true then 1 else 0 := by
  simp [overlaps, List.countP_append, List.countP_singleton]

theorem transit_after_self (x : Exchange) (a : Bool) (t : Turn) :
    (x.after a t).transit a = x.transit a + t.actions.count (.send .ping) := by
  simp [transit, count_sends]

theorem transit_after_other (x : Exchange) (a : Bool) (t : Turn) :
    (x.after a t).transit (!a) = x.transit (!a) := by
  simp [transit]

theorem waits_after_self (x : Exchange) (a : Bool) (t : Turn) :
    (x.after a t).waits a = waitsFor t.next := by
  simp [waits]

theorem waits_after_other (x : Exchange) (a : Bool) (t : Turn) :
    (x.after a t).waits (!a) = x.waits (!a) := by
  simp [waits]

theorem transit_queue (x : Exchange) (a b : Bool) (mime : String) (data : Bytes) :
    (x.queue a mime data).transit b = x.transit b := by
  obtain rfl | rfl := Bool.eq_or_eq_not b a <;> simp [transit]

/-! ## Everything that may happen -/

/-- What can come to a side, and the links then: the next packet of the other side, or what its
reader says when it refuses that packet, or something that is no packet. -/
inductive Arrives (x : Exchange) (a : Bool) : Input → Exchange → Prop where
  | packet {p : Packet} : (x.link (!a)).head? = some p →
      Arrives x a (.received (.packet p)) (x.read (!a))
  | refused {p : Packet} (cause : DecodeError) : (x.link (!a)).head? = some p →
      Arrives x a (.received (.undecodable cause)) (x.read (!a))
  | other {i : Input} : (∀ p, i ≠ .received (.packet p)) → Arrives x a i x

/-- Nothing is said of what happens to the sessions, and contents may be sent at any time. -/
def anything : Conduct where
  comes x a _ _ i x' := x.Arrives a i x'
  content _ _ _ _ := True

namespace Arrives

variable {i : Input}

theorem side (h : x.Arrives a i x') : x'.side = x.side := by
  cases h <;> rfl

theorem waits (h : x.Arrives a i x') (b : Bool) : x'.waits b = x.waits b := by
  rw [Exchange.waits, h.side]
  rfl

theorem transit_self (h : x.Arrives a i x') : x'.transit a = x.transit a := by
  cases h with
  | packet _ | refused _ _ => simp [transit]
  | other _ => rfl

theorem transit_other (h : x.Arrives a i x') :
    x'.transit (!a) + (if i = .received (.packet .ping) then 1 else 0) ≤ x.transit (!a) := by
  cases h with
  | packet hhead | refused _ hhead =>
    rw [transit, transit, Duplex.link_of_head? hhead, List.count_cons]
    simp
  | other hi => simp [hi]

end Arrives

/-! ## The invariant -/

/-- How the pings under way compare with the sides that wait for one. -/
structure Balanced (log : List Event) (x : Exchange) : Prop where
  transit : ∀ a, x.transit a + x.transit (!a) ≤ x.waits a + x.waits (!a) + overlaps log
  sent : overlaps log = 0 → ∀ a, pingsSent log + (x.transit a - x.waits (!a)) +
    (x.transit (!a) - x.waits a) ≤ 2 * keepalives log

theorem Balanced.of_side (a : Bool)
    (htransit : x.transit a + x.transit (!a) ≤ x.waits a + x.waits (!a) + overlaps log)
    (hsent : overlaps log = 0 → pingsSent log + (x.transit a - x.waits (!a)) +
      (x.transit (!a) - x.waits a) ≤ 2 * keepalives log) : Balanced log x := by
  refine ⟨fun b => ?_, fun hnone b => ?_⟩
  · obtain rfl | rfl := Bool.eq_or_eq_not b a
    · exact htransit
    · rw [Bool.not_not]
      omega
  · have hle := hsent hnone
    obtain rfl | rfl := Bool.eq_or_eq_not b a
    · exact hle
    · rw [Bool.not_not]
      omega

theorem transit_opened (o : Bool → Opening) (a : Bool) : (opened o).transit a = 0 := by
  rw [transit, opened, count_sends]
  exact (calm_start _ _ _).silent

theorem balanced_opened (o : Bool → Opening) : Balanced [] (opened o) := by
  refine .of_side false ?_ fun _ => ?_ <;> simp [transit_opened, overlaps, pingsSent, keepalives]

theorem Balanced.queued (h : Balanced log x) (a : Bool) (mime : String) (data : Bytes) :
    Balanced log (x.queue a mime data) := by
  have hwaits : ∀ b, (x.queue a mime data).waits b = x.waits b := fun _ => rfl
  refine ⟨fun b => ?_, fun hnone b => ?_⟩
  · simpa only [transit_queue, hwaits] using h.transit b
  · simpa only [transit_queue, hwaits] using h.sent hnone b

theorem Balanced.turn {s : Session} {i : Input} (h : Balanced log x) (v : View)
    (hs : x.side a = .ok s) (hi : x.Arrives a i x') :
    Balanced (log ++ [event a s v i]) (x'.after a (s.step v i)) := by
  obtain ⟨hbalance, hcause, hanswer⟩ := tally_step v s i
  -- All quantities of the inequality after the turn, in terms of those before it.
  have htransit := h.transit a
  have hsent := fun hnone => h.sent hnone a
  have hwaits : x.waits a = s.awaitingAck.toNat := by rw [waits, hs]; rfl
  have hpeerWaits : x.waits (!a) ≤ 1 := waitsFor_le _
  have hcame := hi.transit_other
  have hpings : pingsSent (log ++ [event a s v i]) =
    pingsSent log + (s.step v i).actions.count (.send .ping) := pingsSent_snoc _ _
  have hkeeps : keepalives (log ++ [event a s v i]) =
    keepalives log + if i = .timer .keepalive then 1 else 0 := keepalives_snoc _ _
  have hover : overlaps (log ++ [event a s v i]) = overlaps log +
    if i = .timer .keepalive ∧ s.awaitingAck = true then 1 else 0 := overlaps_snoc _ _
  rw [← hwaits] at hbalance hanswer
  refine .of_side a ?_ fun hnone => ?_
  · rw [transit_after_self, transit_after_other, waits_after_self, waits_after_other,
      hi.transit_self, hi.waits]
    omega
  · -- A ping that is answered was the only one under way, and the peer waits for the answer.
    have hle := hsent (by omega)
    rw [transit_after_self, transit_after_other, waits_after_self, waits_after_other,
      hi.transit_self, hi.waits]
    omega

/-! ## Every run -/

theorem balanced_run {o : Bool → Opening} (hrun : Run anything (opened o) log last) :
    Balanced log last := by
  induction hrun with
  | start => exact balanced_opened o
  | turn v _ hs hi ih => exact ih.turn v hs hi
  | queued _ _ ih => exact ih.queued _ _ _

/-- **Keepalives and pings.** Whatever happens to two sessions, in whatever order: at most two pings
are under way, and one more for each keepalive that fired while an earlier one of its side was not
acknowledged; and if there was no such keepalive, the two have sent at most twice as many pings as
keepalives fired. -/
theorem pings_bounded {o : Bool → Opening} (hrun : Run anything (opened o) log last) :
    last.transit false + last.transit true ≤ 2 + overlaps log ∧
      (overlaps log = 0 → pingsSent log ≤ 2 * keepalives log) := by
  have hbalanced := balanced_run hrun
  constructor
  · have htransit : last.transit false + last.transit true ≤
      last.waits false + last.waits true + overlaps log := hbalanced.transit false
    have hone : last.waits false ≤ 1 := waitsFor_le (last.side false)
    have htwo : last.waits true ≤ 1 := waitsFor_le (last.side true)
    omega
  · intro hnone
    have hsent := hbalanced.sent hnone false
    omega

/-! ## Two nodes that know each other -/

/-- The session sees room in its outbox, and trusts the peer. -/
def clear (now : Time) : View := ⟨now, .free, fun _ => true⟩

/-- A packet comes to a side. -/
def comesAt (a : Bool) (now : Time) : Move := .deliver a (clear now)

/-- The keepalive of a side fires. -/
def firesAt (a : Bool) (now : Time) : Move := .happen a (clear now) (.timer .keepalive)

/-- Packets that fit come, and anything that is no packet happens. -/
def fitting (x : Exchange) : Move → Bool
  | .deliver a _ =>
    (x.side a).toOption.any fun s => (x.link (!a)).head?.any fun p => s.settings.codec.Fits p
  | .happen _ _ (.received _) => false
  | .happen _ _ _ | .send _ _ _ => true

theorem anything_allows : anything.Allows fitting where
  deliver {x a s v p} hok hs hp := by
    have hfits : s.settings.codec.Fits p := by
      simpa [fitting, hs, hp, Except.toOption] using hok
    rw [arrival_of_fits hfits]
    exact .packet hp
  happen {x a s v i} hok _ := by
    refine .other ?_
    rintro p rfl
    cases hok
  send _ := trivial

/-- Two nodes with the usual limits; the first dials the second. -/
def dialing (a : Bool) : Opening where
  settings := (Config.default "/home").sessionSettings
  direction := if a then .inbound else .outbound
  mine := some ⟨if a then "B2" else "A1"⟩
  peer := some ⟨if a then "A1" else "B2"⟩
  view := clear 0
  nonce := List.replicate 32 (if a then 4 else 3)

/-- The handshake. The second side hears the last of it late. -/
def handshake : List Move :=
  [comesAt false 100, comesAt true 100, comesAt false 200, comesAt true 9000]

theorem pings_bounded_kept : ∃ log last, Run anything (opened dialing) log last ∧ overlaps log = 0 ∧
    keepalives log = 1 ∧ pingsSent log = 2 ∧
    (last.transit false + last.transit true ≤ 2 + overlaps log ∧
      (overlaps log = 0 → pingsSent log ≤ 2 * keepalives log)) := by
  have hplay : (play? (move? fitting) ([], opened dialing)
      (handshake ++ [firesAt false 10200, comesAt true 10300, comesAt false 10400])).map
      (fun r => (overlaps r.1, keepalives r.1, pingsSent r.1)) = some (0, 1, 2) := by
    decide +kernel
  obtain ⟨⟨log, last⟩, hr, hcounts⟩ := Option.map_eq_some_iff.1 hplay
  simp only [Prod.mk.injEq] at hcounts
  have hrun : Run anything (opened dialing) log last := .of_play? anything_allows .start hr
  exact ⟨log, last, hrun, hcounts.1, hcounts.2.1, hcounts.2.2, pings_bounded hrun⟩

/-! ## Overlapping keepalives -/

/-- A ping comes to a side, and nobody waits for it. -/
def Echoing (x : Exchange) (a : Bool) : Prop :=
  (∀ b, x.waits b = 0) ∧ x.link (!a) = [.ping] ∧ x.link a = []

instance (x : Exchange) (a : Bool) : Decidable (x.Echoing a) :=
  inferInstanceAs (Decidable (_ ∧ _))

theorem side_of_waits_eq_zero {b : Bool} (h : x.waits b = 0) :
    ∃ s, x.side b = .ok s ∧ s.awaitingAck = false := by
  unfold waits at h
  cases hs : x.side b with
  | ok s =>
    rw [hs] at h
    exact ⟨s, rfl, Bool.toNat_eq_zero.1 h⟩
  | error reason =>
    rw [hs] at h
    cases h

theorem Run.echo (hrun : Run anything first log x) (h : x.Echoing a) :
    ∃ log' x', Run anything first log' x' ∧ x'.Echoing (!a) ∧ keepalives log' = keepalives log ∧
      pingsSent log' = pingsSent log + 1 := by
  obtain ⟨hwaits, hcoming, hgoing⟩ := h
  obtain ⟨s, hs, hnot⟩ := side_of_waits_eq_zero (hwaits a)
  have hstep := step_ping (v := clear 0) hnot rfl
  have hcomes : x.Arrives a (.received (.packet .ping)) (x.read (!a)) :=
    .packet (by rw [hcoming]; rfl)
  have hturn := hrun.turn (clear 0) hs hcomes
  rw [hstep] at hturn
  refine ⟨_, _, hturn, ⟨fun b => ?_, ?_, ?_⟩, ?_, ?_⟩
  · obtain rfl | rfl := Bool.eq_or_eq_not b a
    · rw [waits_after_self]
      exact congrArg Bool.toNat hnot
    · rw [waits_after_other]
      exact hwaits _
  · simp [sends, goOn, hgoing]
  · simp [hcoming]
  · rw [keepalives_snoc]
    rfl
  · rw [pingsSent_snoc]
    show _ + (s.step _ _).actions.count _ = _
    rw [hstep]
    rfl

theorem Run.echoes (hrun : Run anything first log x) (h : x.Echoing a) (n : Nat) :
    ∃ log' x', Run anything first log' x' ∧ keepalives log' = keepalives log ∧
      pingsSent log' = pingsSent log + n := by
  induction n generalizing log x a with
  | zero => exact ⟨log, x, hrun, rfl, rfl⟩
  | succ n ih =>
    obtain ⟨log₁, x₁, hrun₁, hecho, hkeeps, hsent⟩ := hrun.echo h
    obtain ⟨log₂, x₂, hrun₂, hkeeps₂, hsent₂⟩ := ih hrun₁ hecho
    exact ⟨log₂, x₂, hrun₂, hkeeps₂.trans hkeeps, by omega⟩

/-- No timer of the session is late, and a timer that fires is due. -/
def Event.onTime (e : Event) : Bool :=
  e.before.nextDue.all (e.view.now ≤ ·) &&
    match e.input with
    | .timer t => (e.before.dueTimers e.view.now).contains t
    | _ => true

/-- The moments follow each other, and every timer fires on time. -/
def Timely (log : List Event) : Prop :=
  (log.map (·.view.now)).Pairwise (· ≤ ·) ∧ ∀ e ∈ log, e.onTime = true

instance (log : List Event) : Decidable (Timely log) := inferInstanceAs (Decidable (_ ∧ _))

/-- The replies of the second side take so long that the first sends another keepalive. -/
def slowReplies : List Move :=
  handshake ++ [firesAt false 10200, comesAt true 15000, firesAt false 20200, comesAt true 24000,
    comesAt false 25000, comesAt false 26000]

/-- **Two keepalives are enough.** Two keepalives of one side, with every timer on time, lead to
five pings, and without another keepalive to any number of them. -/
theorem overlapping_keepalives_echo :
    ∃ log last, Run anything (opened dialing) log last ∧ Timely log ∧ keepalives log = 2 ∧
      pingsSent log = 5 ∧ ∀ n, ∃ log' last', Run anything (opened dialing) log' last' ∧
        keepalives log' = 2 ∧ pingsSent log' = 5 + n := by
  have hplay : (play? (move? fitting) ([], opened dialing) slowReplies).map (fun r =>
      (decide (Timely r.1), keepalives r.1, pingsSent r.1, decide (r.2.Echoing true))) =
        some (true, 2, 5, true) := by
    decide +kernel
  obtain ⟨⟨log, last⟩, hr, hcounts⟩ := Option.map_eq_some_iff.1 hplay
  simp only [Prod.mk.injEq, decide_eq_true_eq] at hcounts
  obtain ⟨htimely, hkeeps, hsent, hecho⟩ := hcounts
  have hrun : Run anything (opened dialing) log last := .of_play? anything_allows .start hr
  refine ⟨log, last, hrun, htimely, hkeeps, hsent, fun n => ?_⟩
  obtain ⟨log', last', hrun', hkeeps', hsent'⟩ := hrun.echoes hecho n
  exact ⟨log', last', hrun', hkeeps'.trans hkeeps, by omega⟩

end Exchange

end SharedClipboard
