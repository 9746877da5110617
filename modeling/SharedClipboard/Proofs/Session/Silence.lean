import SharedClipboard.Proofs.Session.Keepalive

/-!
# Silence and delay

Two sessions run under one configuration at the two ends of a connection, and a clock says when
everything happens (`Conversation`). A packet reaches the other side within a delay `d` and no timer
is late: time passes only as far as the packets under way and the timers of the two allow
(`Conversation.MayPass`). Everything else is open.

**Theorem (`silence_is_short`).** If `d` is less than the ping interval, and a ping interval with
two delays less than the idle timeout, neither of two open sessions ends because the other is
silent.

A keepalive does not always bring an answer: a peer that waits for a reply itself takes it for that
reply. The invariant has two parts. A side that waits can point to a ping under way, in either
direction (`Lively.balance`); so a keepalive that is swallowed leaves one that comes back. And a
side that has heard nothing for an interval has its ping on the way or a packet coming
(`Attended`).
-/

namespace SharedClipboard

namespace Session

/-! ## What a turn means for the timers -/

/-- The second session is the first after a packet came at the given moment. -/
structure Hears (s s' : Session) (now : Time) : Prop where
  settings : s'.settings = s.settings
  lastReceived : s'.lastReceived = now
  lastPing : s'.lastPing = s.lastPing ∨ s'.lastPing = now

/-- A session that goes on has heard from its peer, and one that ends was not idle. -/
structure Turn.Hearing (t : Turn) (s : Session) (now : Time) : Prop where
  next : ∀ s', t.next = .ok s' → s.Hears s' now
  reason : t.next ≠ .error .idle

theorem hearing_packet (v : View) (s : Session) (p : Packet) :
    (s.step v (.received (.packet p))).Hearing s v.now := by
  by_cases hp : p = .ping
  · rw [hp, step_of_ping]
    unfold onPing
    split
    · refine ⟨?_, by simp [goOn]⟩
      rintro _ ⟨⟩
      exact ⟨rfl, rfl, .inl rfl⟩
    · obtain hsent | ⟨cause, hstop⟩ :=
        send_cases v .ping { s with lastReceived := v.now, lastPing := v.now }
      · rw [hsent]
        refine ⟨?_, by simp [goOn]⟩
        rintro _ ⟨⟩
        exact ⟨rfl, rfl, .inr rfl⟩
      · rw [hstop]
        exact ⟨by simp [stop], by simp [stop]⟩
  · have hcalm := calm_packet v s hp
    refine ⟨fun s' hs' => ?_, hcalm.reason⟩
    obtain ⟨hsettings, hreceived, hping, -⟩ := hcalm.next s' hs'
    exact ⟨hsettings, hreceived, .inl hping⟩

theorem keepalive_goes_on {v : View} {s s' : Session}
    (h : (s.step v (.timer .keepalive)).next = .ok s') :
    s' = { s with lastPing := v.now, awaitingAck := true } ∧
      (s.step v (.timer .keepalive)).actions = [.send .ping] := by
  simp only [step, onTimer] at h ⊢
  obtain hsent | ⟨cause, hstop⟩ :=
    send_cases v .ping { s with lastPing := v.now, awaitingAck := true }
  · rw [hsent] at h ⊢
    cases h
    exact ⟨rfl, rfl⟩
  · rw [hstop] at h
    cases h

theorem waits_onPing {v : View} {s s' : Session} (h : (s.onPing v).next = .ok s') :
    s'.awaitingAck.toNat + 1 ≤ s.awaitingAck.toNat + (s.onPing v).actions.count (.send .ping) := by
  unfold onPing at h ⊢
  split at h
  · rename_i hwait
    cases h
    simp [hwait]
  · rename_i hnot
    rw [if_neg hnot]
    obtain hsent | ⟨cause, hstop⟩ := send_cases v .ping { s with lastPing := v.now }
    · rw [hsent] at h ⊢
      cases h
      simp [goOn]
    · rw [hstop] at h
      cases h

/-- A session that begins to wait sends a ping, and one that hears a ping answers it or stops
waiting. -/
theorem waits_step {v : View} {s s' : Session} {i : Input} (h : (s.step v i).next = .ok s') :
    s'.awaitingAck.toNat + (if i = .received (.packet .ping) then 1 else 0) ≤
      s.awaitingAck.toNat + (s.step v i).actions.count (.send .ping) := by
  -- Only a ping and the keepalive timer touch what a side waits for.
  by_cases hpacket : ∃ p, i = .received (.packet p)
  · obtain ⟨p, rfl⟩ := hpacket
    by_cases hp : p = .ping
    · subst hp
      rw [step_of_ping] at h ⊢
      exact waits_onPing h
    · have hcalm := calm_packet v s hp
      simp [hp, hcalm.silent, (hcalm.next s' h).awaitingAck]
  · by_cases hkeep : i = .timer .keepalive
    · subst hkeep
      obtain ⟨rfl, hactions⟩ := keepalive_goes_on h
      simp [hactions]
    · have hidle : i ≠ .timer .idle := by
        rintro rfl
        cases h
      have hcalm := calm_step v s (not_exists.1 hpacket) hkeep hidle
      simp [not_exists.1 hpacket .ping, hcalm.silent, (hcalm.next s' h).awaitingAck]

theorem nextDue_le {s : Session} {k : Timer} {u : Time} (h : s.due k = some u) :
    ∃ n ∈ s.nextDue, n ≤ u := by
  have hmem : u ∈ timers.filterMap s.due :=
    List.mem_filterMap.2 ⟨k, by cases k <;> simp [timers], h⟩
  obtain ⟨n, hn⟩ := List.isSome_min?_of_mem hmem |> Option.isSome_iff_exists.1
  exact ⟨n, hn, (List.min?_eq_some_iff.1 hn).2 u hmem⟩

/-- Only the idle timer ends a session for being idle. -/
theorem idle_of_next {v : View} {s : Session} {i : Input} (h : (s.step v i).next = .error .idle) :
    i = .timer .idle := by
  by_contra hidle
  by_cases hpacket : ∃ p, i = .received (.packet p)
  · obtain ⟨p, rfl⟩ := hpacket
    exact (hearing_packet v s p).reason h
  · by_cases hkeep : i = .timer .keepalive
    · subst hkeep
      simp only [step, onTimer] at h
      obtain hsent | ⟨cause, hstop⟩ :=
        send_cases v .ping { s with lastPing := v.now, awaitingAck := true }
      · rw [hsent] at h
        cases h
      · rw [hstop] at h
        cases h
    · exact (calm_step v s (not_exists.1 hpacket) hkeep hidle).reason h

end Session

/-! ## Conversations -/

namespace Conversation

/-- One side of a conversation. -/
inductive Side where
  | absent
  | running (s : Session)
  | ended (reason : CloseReason)
  deriving DecidableEq, Repr, Inhabited

/-- A packet under way, and when it was queued. -/
structure Posted where
  packet : Packet
  time : Time
  deriving DecidableEq, Repr, Inhabited

/-- Packets that are queued now. -/
def posted (now : Time) (packets : List Packet) : List Posted := packets.map (⟨·, now⟩)

def Side.ofNext : Except CloseReason Session → Side
  | .ok s => .running s
  | .error reason => .ended reason

def Side.isOver : Side → Bool
  | .ended _ => true
  | _ => false

/-- When the next timer of the side is due. -/
def Side.nextDue : Side → Option Time
  | .running s => s.nextDue
  | _ => none

end Conversation

/-- Two sessions at the ends of a connection, and the packets of each that the other has not
received. -/
structure Conversation extends Duplex Conversation.Side Conversation.Posted where
  now : Time

namespace Conversation

open Session
open Exchange (Opening)

def fresh (now : Time) : Conversation := ⟨⟨fun _ => .absent, fun _ => []⟩, now⟩

abbrev after (x : Conversation) (a : Bool) (t : Turn) : Conversation :=
  { x with toDuplex := x.act a (.ofNext t.next) (posted x.now (sends t.actions)) }

abbrev read (x : Conversation) (a : Bool) : Conversation := { x with toDuplex := x.take a }

abbrev queue (x : Conversation) (a : Bool) (mime : String) (data : Bytes) : Conversation :=
  { x with toDuplex := x.put a ⟨.syncRequest mime data, x.now⟩ }

/-- No side has ended. -/
def Open (x : Conversation) : Prop := ∀ a, (x.side a).isOver = false

instance (x : Conversation) : Decidable x.Open := inferInstanceAs (Decidable (∀ _, _))

/-- The clock may go to `t`: no timer is due before, and no packet to a side that has not ended
would be under way for longer than `d`. -/
def MayPass (d : Nat) (x : Conversation) (t : Time) : Prop :=
  x.now ≤ t ∧ (∀ a, ∀ u ∈ (x.side a).nextDue, t ≤ u) ∧
    ∀ a, (x.side (!a)).isOver = false → ∀ m ∈ x.link a, t ≤ m.time + d

instance (d : Nat) (x : Conversation) (t : Time) : Decidable (x.MayPass d t) :=
  inferInstanceAs (Decidable (_ ∧ _))

/-- What can happen to side `a`, and the links then: the next packet of the other side comes, a
timer is due, or anything else happens but these. -/
inductive Occurs (x : Conversation) (a : Bool) (s : Session) : Input → Conversation → Prop where
  | packet {m : Posted} : (x.link (!a)).head? = some m →
      Occurs x a s (.received (.packet m.packet)) (x.read (!a))
  | timer {k : Timer} {u : Time} : s.due k = some u → u ≤ x.now → Occurs x a s (.timer k) x
  | other {i : Input} : (∀ p, i ≠ .received (.packet p)) → (∀ k, i ≠ .timer k) → Occurs x a s i x

/-- A step of a conversation under the configuration `c` with delays of at most `d`. -/
inductive Step (c : Config) (d : Nat) (x : Conversation) : Conversation → Prop where
  | opens {a : Bool} (o : Opening) : x.side a = .absent → o.settings = c.sessionSettings →
      o.view.now = x.now → Step c d x (x.after a o.turn)
  | turn {a : Bool} {s : Session} {i : Input} {x' : Conversation} (v : View) :
      x.side a = .running s → v.now = x.now → x.Occurs a s i x' →
      Step c d x (x'.after a (s.step v i))
  | queued (a : Bool) (mime : String) (data : Bytes) : Step c d x (x.queue a mime data)
  | passes {t : Time} : x.MayPass d t → Step c d x { x with now := t }

/-- The conversations that can come about. -/
inductive Run (c : Config) (d : Nat) : Conversation → Prop where
  | start (now : Time) : Run c d (fresh now)
  | step {x x' : Conversation} : Run c d x → Step c d x x' → Run c d x'

variable {c : Config} {d : Nat} {x x' y : Conversation} {a b : Bool} {s s' : Session} {i : Input}

namespace Occurs

theorem side (h : x.Occurs a s i x') : x'.side = x.side := by
  cases h <;> rfl

theorem now (h : x.Occurs a s i x') : x'.now = x.now := by
  cases h <;> rfl

theorem link_self (h : x.Occurs a s i x') : x'.link a = x.link a := by
  cases h with
  | packet _ => simp
  | timer | other => rfl

/-- Only what was under way is under way. -/
theorem link_sublist (h : x.Occurs a s i x') : (x'.link (!a)).Sublist (x.link (!a)) := by
  cases h with
  | packet _ => simpa using List.tail_sublist _
  | timer | other => exact .refl _

end Occurs

/-! ## The invariant -/

/-- The pings of side `a` under way. -/
def pings (x : Conversation) (a : Bool) : Nat := (x.link a).countP (·.packet = .ping)

/-- 1 if side `a` waits for a ping. -/
def waits (x : Conversation) (a : Bool) : Nat :=
  match x.side a with
  | .running s => s.awaitingAck.toNat
  | _ => 0

/-- Why side `a` will hear from the other in time. -/
inductive Attended (d : Nat) (x : Conversation) (a : Bool) (s : Session) : Prop where
  /-- It heard from the other and has not pinged it since. -/
  | heard : s.lastPing ≤ s.lastReceived →
      x.now ≤ s.lastReceived + s.settings.pingInterval → Attended d x a s
  /-- Its ping is under way, and no other after it. -/
  | asked {earlier later : List Posted} : s.awaitingAck = true →
      s.lastPing = s.lastReceived + s.settings.pingInterval →
      x.link a = earlier ++ ⟨.ping, s.lastPing⟩ :: later → (∀ m ∈ later, m.packet ≠ .ping) →
      Attended d x a s
  /-- A packet of the other is under way, sent no later than the ping could bring an answer. -/
  | answered {m : Posted} : m ∈ x.link (!a) →
      m.time ≤ s.lastReceived + s.settings.pingInterval + d → Attended d x a s

/-- What holds of a session while both are open. -/
structure Sound (c : Config) (d : Nat) (x : Conversation) (a : Bool) (s : Session) : Prop where
  settings : s.settings = c.sessionSettings
  received : s.lastReceived ≤ x.now
  pinged : s.lastPing ≤ x.now
  attended : x.Attended d a s

/-- What holds of a conversation while both sides are open. -/
structure Lively (c : Config) (d : Nat) (x : Conversation) : Prop where
  /-- Each side that waits for a ping can point to one. -/
  balance : ∀ a, x.waits a + x.waits (!a) ≤ x.pings a + x.pings (!a)
  past : ∀ a, ∀ m ∈ x.link a, m.time ≤ x.now
  inTime : ∀ a, ∀ m ∈ x.link a, x.now ≤ m.time + d
  sides : ∀ a s, x.side a = .running s → x.Sound c d a s

/-- Packets that are queued behind the others, none of them a ping of the side itself, change
nothing for the side. -/
theorem Attended.queued {own other : List Posted} (h : x.Attended d a s) (hnow : y.now = x.now)
    (hown : y.link a = x.link a ++ own) (hother : y.link (!a) = x.link (!a) ++ other)
    (hplain : ∀ m ∈ own, m.packet ≠ .ping) : y.Attended d a s := by
  cases h with
  | heard hping hin => exact .heard hping (hnow ▸ hin)
  | @asked earlier later hwait hping hlink hlast =>
    have hlink' : y.link a = earlier ++ ⟨.ping, s.lastPing⟩ :: (later ++ own) := by
      rw [hown, hlink, List.append_assoc, List.cons_append]
    exact .asked hwait hping hlink' fun m hm => (List.mem_append.1 hm).elim (hlast m) (hplain m)
  | answered hm htime => exact .answered (hother ▸ List.mem_append_left _ hm) htime

theorem Attended.of_keeps (h : x.Attended d a s) (hkeeps : s.KeepsPulse s') :
    x.Attended d a s' := by
  obtain ⟨hsettings, hreceived, hping, hwait⟩ := hkeeps
  cases h with
  | heard hle hin =>
    refine .heard ?_ ?_
    · rwa [hping, hreceived]
    · rwa [hsettings, hreceived]
  | asked hack hat hlink hlast =>
    refine .asked (hwait.trans hack) ?_ (hping ▸ hlink) hlast
    rwa [hping, hsettings, hreceived]
  | answered hm htime =>
    refine .answered hm ?_
    rwa [hsettings, hreceived]

theorem Attended.of_now (h : x.Attended d a s) {t : Time}
    (ht : t ≤ max s.lastPing s.lastReceived + s.settings.pingInterval) :
    Attended d { x with now := t } a s := by
  cases h with
  | heard hping hin => exact .heard hping (Nat.max_eq_right hping ▸ ht)
  | asked hwait hping hlink hlast => exact .asked hwait hping hlink hlast
  | answered hm htime => exact .answered hm htime

/-! ## Pings under way -/

theorem countP_posted (now : Time) (ps : List Packet) :
    (posted now ps).countP (·.packet = .ping) = ps.count .ping := by
  rw [posted, List.countP_map]
  rfl

theorem pings_after_self (x : Conversation) (a : Bool) (t : Turn) :
    (x.after a t).pings a = x.pings a + t.actions.count (.send .ping) := by
  rw [pings, Duplex.link_act_self, List.countP_append, countP_posted, count_sends, pings]

theorem pings_after_other (x : Conversation) (a : Bool) (t : Turn) :
    (x.after a t).pings (!a) = x.pings (!a) := by
  rw [pings, Duplex.link_act_other, pings]

theorem packet_ne_ping {t : Turn} {now : Time} {m : Posted}
    (h : t.actions.count (.send .ping) = 0) (hm : m ∈ posted now (sends t.actions)) :
    m.packet ≠ .ping := by
  obtain ⟨p, hp, rfl⟩ := List.mem_map.1 hm
  rintro rfl
  exact List.count_eq_zero.1 ((count_sends _ _).trans h) hp

theorem time_of_posted {now : Time} {ps : List Packet} {m : Posted} (hm : m ∈ posted now ps) :
    m.time = now := by
  obtain ⟨p, -, rfl⟩ := List.mem_map.1 hm
  rfl

theorem Occurs.pings_self (h : x.Occurs a s i x') : x'.pings a = x.pings a := by
  rw [pings, h.link_self, pings]

theorem Occurs.pings_other (h : x.Occurs a s i x') :
    x'.pings (!a) + (if i = .received (.packet .ping) then 1 else 0) = x.pings (!a) := by
  cases h with
  | @packet m hhead =>
    rw [pings, pings, Duplex.link_of_head? hhead, List.countP_cons]
    simp
  | timer _ _ => simp
  | other hi _ => simp [hi]

theorem exists_ping (h : 0 < x.pings a) : ∃ m ∈ x.link a, m.packet = .ping := by
  simpa [pings, List.countP_pos_iff] using h

/-! ## One step -/

theorem waits_running (h : x.side a = .running s) : x.waits a = s.awaitingAck.toNat := by
  rw [waits, h]

theorem waits_congr (h : x'.side a = x.side a) : x'.waits a = x.waits a := by
  rw [waits, h, waits]

/-- A turn of side `a` from which both sides go on. -/
structure Turns (c : Config) (d : Nat) (x : Conversation) (a : Bool) (s : Session) (i : Input)
    (x' : Conversation) (v : View) (s' : Session) : Prop where
  lively : Lively c d x
  running : x.side a = .running s
  now : v.now = x.now
  occurs : x.Occurs a s i x'
  next : (s.step v i).next = .ok s'

namespace Turns

variable {v : View}

theorem balance (h : Turns c d x a s i x' v s') :
    (x'.after a (s.step v i)).waits a + (x'.after a (s.step v i)).waits (!a) ≤
      (x'.after a (s.step v i)).pings a + (x'.after a (s.step v i)).pings (!a) := by
  have hstep := waits_step h.next
  have hcame := h.occurs.pings_other
  have hbefore := h.lively.balance a
  have hwaits : (x'.after a (s.step v i)).waits a = s'.awaitingAck.toNat :=
    waits_running (by rw [Duplex.side_act_self, h.next]; rfl)
  have hothers : (x'.after a (s.step v i)).waits (!a) = x.waits (!a) :=
    waits_congr (by rw [Duplex.side_act_other, h.occurs.side])
  rw [waits_running h.running] at hbefore
  rw [hwaits, hothers, pings_after_self, pings_after_other, h.occurs.pings_self]
  omega

theorem link_self (h : Turns c d x a s i x' v s') :
    (x'.after a (s.step v i)).link a = x.link a ++ posted x.now (sends (s.step v i).actions) := by
  rw [Duplex.link_act_self, h.occurs.link_self, h.occurs.now]

/-- What is under way was under way or is new. -/
theorem mem_link (h : Turns c d x a s i x' v s') {b : Bool} {m : Posted}
    (hm : m ∈ (x'.after a (s.step v i)).link b) : m ∈ x.link b ∨ m.time = x.now := by
  obtain rfl | rfl := Bool.eq_or_eq_not b a
  · rw [h.link_self] at hm
    exact (List.mem_append.1 hm).imp_right time_of_posted
  · rw [Duplex.link_act_other] at hm
    exact .inl (h.occurs.link_sublist.subset hm)

theorem past (h : Turns c d x a s i x' v s') :
    ∀ b, ∀ m ∈ (x'.after a (s.step v i)).link b, m.time ≤ x.now := fun b m hm =>
  (h.mem_link hm).elim (h.lively.past b m) Nat.le_of_eq

theorem inTime (h : Turns c d x a s i x' v s') :
    ∀ b, ∀ m ∈ (x'.after a (s.step v i)).link b, x.now ≤ m.time + d := fun b m hm =>
  (h.mem_link hm).elim (h.lively.inTime b m) fun heq => heq ▸ Nat.le_add_right _ _

theorem sound_packet {m : Posted} (h : Turns c d x a s (.received (.packet m.packet)) x' v s') :
    Sound c d (x'.after a (s.step v (.received (.packet m.packet)))) a s' := by
  have hold := h.lively.sides a s h.running
  have hnow : (x'.after a (s.step v (.received (.packet m.packet)))).now = x.now := h.occurs.now
  obtain ⟨hsettings, hreceived, hping⟩ := (hearing_packet v s m.packet).next s' h.next
  have hpinged : s'.lastPing ≤ x.now := by
    obtain hsame | hnew := hping
    · exact hsame ▸ hold.pinged
    · exact Nat.le_of_eq (hnew.trans h.now)
  rw [h.now] at hreceived
  refine ⟨hsettings.trans hold.settings, ?_, hnow ▸ hpinged, .heard (hreceived ▸ hpinged) ?_⟩
  · exact Nat.le_of_eq (hreceived.trans hnow.symm)
  · rw [hnow, hreceived]
    exact Nat.le_add_right _ _

/-- A keepalive fires an interval after the last packet came, or while an answer is coming. -/
theorem sound_keepalive (hd : d < c.sessionSettings.pingInterval)
    (h : Turns c d x a s (.timer .keepalive) x v s')
    (hdue : max s.lastPing s.lastReceived + s.settings.pingInterval ≤ x.now) :
    Sound c d (x.after a (s.step v (.timer .keepalive))) a s' := by
  have hold := h.lively.sides a s h.running
  have hlong : d < s.settings.pingInterval := hold.settings ▸ hd
  have hnow := h.now
  have hlink := h.link_self
  obtain ⟨rfl, hactions⟩ := keepalive_goes_on h.next
  rw [hactions] at hlink
  refine ⟨hold.settings, hold.received, Nat.le_of_eq hnow, ?_⟩
  -- Why the side will hear from the other: it just has, its ping is under way, or a reply is.
  obtain ⟨hping, hin⟩ | ⟨hwait, hping, hbefore, hlast⟩ | ⟨hm, htime⟩ := hold.attended
  · have hafter : (x.after a (s.step v (.timer .keepalive))).link a =
        x.link a ++ ⟨.ping, v.now⟩ :: [] := hlink.trans (by simp [posted, sends, hnow])
    rw [Nat.max_eq_right hping] at hdue
    exact .asked rfl (hnow.trans (Nat.le_antisymm hin hdue)) hafter (by simp)
  · -- The ping of the last keepalive would be under way for too long.
    have hlate : x.now ≤ s.lastPing + d := h.lively.inTime a ⟨.ping, s.lastPing⟩ (hbefore ▸ by simp)
    have hle : s.lastPing + s.settings.pingInterval ≤ s.lastPing + d := calc
      _ ≤ max s.lastPing s.lastReceived + s.settings.pingInterval :=
        Nat.add_le_add_right (Nat.le_max_left _ _) _
      _ ≤ x.now := hdue
      _ ≤ s.lastPing + d := hlate
    exact absurd (Nat.le_of_add_le_add_left hle) (Nat.not_le_of_lt hlong)
  · exact .answered ((x.link_act_other a _ _).symm ▸ hm) htime

theorem sound_plain (h : Turns c d x a s i x v s') (hpacket : ∀ p, i ≠ .received (.packet p))
    (hkeep : i ≠ .timer .keepalive) : Sound c d (x.after a (s.step v i)) a s' := by
  have hold := h.lively.sides a s h.running
  have hidle : i ≠ .timer .idle := by
    rintro rfl
    cases h.next
  have hcalm := calm_step v s hpacket hkeep hidle
  have hkeeps := hcalm.next s' h.next
  refine ⟨hkeeps.settings.trans hold.settings, hkeeps.lastReceived ▸ hold.received,
    hkeeps.lastPing ▸ hold.pinged, .of_keeps ?_ hkeeps⟩
  have hother : (x.after a (s.step v i)).link (!a) = x.link (!a) ++ [] := by
    rw [Duplex.link_act_other, List.append_nil]
  exact hold.attended.queued rfl h.link_self hother fun m => packet_ne_ping hcalm.silent

theorem sound_self (h : Turns c d x a s i x' v s') (hd : d < c.sessionSettings.pingInterval) :
    Sound c d (x'.after a (s.step v i)) a s' := by
  cases h.occurs with
  | packet hhead => exact h.sound_packet
  | @timer k u hdue hnow =>
    by_cases hkeep : k = .keepalive
    · subst hkeep
      cases hdue
      exact sound_keepalive hd h hnow
    · exact h.sound_plain (by simp) (by simpa using hkeep)
  | other hpacket htimer => exact h.sound_plain hpacket (htimer _)

/-- When the last ping of a side that waits has come, then a ping to it is under way, be it the
reply or the keepalive for which the ping was taken as the reply. -/
theorem coming {o : Session} {rest : List Posted} {m : Posted} (h : Turns c d x a s i x' v s')
    (ho : x.side (!a) = .running o) (hwait : o.awaitingAck = true)
    (hlink : (x'.after a (s.step v i)).link (!a) = rest) (hnone : ∀ m ∈ rest, m.packet ≠ .ping)
    (hm : m ∈ x.link (!a)) :
    ∃ n ∈ (x'.after a (s.step v i)).link a, n.time ≤ m.time + d := by
  have hbalance := h.balance
  have hwaits : (x'.after a (s.step v i)).waits (!a) = 1 := by
    rw [waits_running (by rw [Duplex.side_act_other, h.occurs.side, ho]), hwait]
    rfl
  have hpings : (x'.after a (s.step v i)).pings (!a) = 0 := by
    rw [pings, hlink, List.countP_eq_zero]
    simpa using hnone
  have hpos : 0 < (x'.after a (s.step v i)).pings a := by omega
  obtain ⟨n, hn, -⟩ := exists_ping hpos
  exact ⟨n, hn, Nat.le_trans (h.past a n hn) (h.lively.inTime _ m hm)⟩

theorem attended_other {o : Session} (h : Turns c d x a s i x' v s')
    (ho : x.side (!a) = .running o) : Attended d (x'.after a (s.step v i)) (!a) o := by
  have hnow : (x'.after a (s.step v i)).now = x.now := h.occurs.now
  have hback : ∀ y : Conversation, y.link (!(!a)) = y.link a := fun y => by rw [Bool.not_not]
  obtain ⟨hping, hin⟩ | ⟨hwait, hping, hlink, hlast⟩ | ⟨hm, htime⟩ :=
    (h.lively.sides (!a) o ho).attended
  · exact .heard hping (hnow ▸ hin)
  · have hafter : (x'.after a (s.step v i)).link (!a) = x'.link (!a) := Duplex.link_act_other ..
    cases h.occurs with
    | @packet m hhead =>
      rename_i earlier later
      have htail : (x.read (!a)).link (!a) = (x.link (!a)).tail := by simp
      rw [htail, hlink] at hafter
      cases earlier with
      | nil =>
        have hcame : (⟨.ping, o.lastPing⟩ : Posted) ∈ x.link (!a) := hlink ▸ by simp
        obtain ⟨n, hn, hle⟩ := h.coming ho hwait hafter hlast hcame
        exact .answered (hback _ ▸ hn) (hping ▸ hle)
      | cons m earlier => exact .asked hwait hping hafter hlast
    | timer _ _ => exact .asked hwait hping (hafter.trans hlink) hlast
    | other _ _ => exact .asked hwait hping (hafter.trans hlink) hlast
  · rw [hback] at hm
    refine .answered (?_ : _ ∈ (x'.after a (s.step v i)).link (!(!a))) htime
    rw [hback, h.link_self]
    exact List.mem_append_left _ hm

theorem after (h : Turns c d x a s i x' v s') (hd : d < c.sessionSettings.pingInterval) :
    Lively c d (x'.after a (s.step v i)) where
  balance b := by
    have hbalance := h.balance
    obtain rfl | rfl := Bool.eq_or_eq_not b a
    · exact hbalance
    · rw [Bool.not_not]
      omega
  past b m hm := h.occurs.now ▸ h.past b m hm
  inTime b m hm := h.occurs.now ▸ h.inTime b m hm
  sides b o ho := by
    obtain rfl | rfl := Bool.eq_or_eq_not b a
    · rw [Duplex.side_act_self, h.next] at ho
      cases ho
      exact h.sound_self hd
    · rw [Duplex.side_act_other, h.occurs.side] at ho
      have hold := h.lively.sides _ o ho
      have hnow : (x'.after a (s.step v i)).now = x.now := h.occurs.now
      exact ⟨hold.settings, hnow ▸ hold.received, hnow ▸ hold.pinged, h.attended_other ho⟩

end Turns

/-- The session has just begun. -/
structure Begins (c : Config) (now : Time) (s : Session) : Prop where
  settings : s.settings = c.sessionSettings
  received : s.lastReceived = now
  pinged : s.lastPing = now
  waits : s.awaitingAck = false

theorem begins_opening {o : Opening} {now : Time} (hsettings : o.settings = c.sessionSettings)
    (hnow : o.view.now = now) (h : o.turn.next = .ok s) : Begins c now s := by
  obtain ⟨hsame, hreceived, hping, hwait⟩ := (calm_start o.view o.nonce _).next s h
  exact ⟨hsame.trans hsettings, hreceived.trans hnow, hping.trans hnow, hwait⟩

/-- Packets other than pings may be queued at any time, and a session may begin. -/
theorem Lively.grow (h : Lively c d x) (more : Bool → List Posted) (hnow : y.now = x.now)
    (hlink : ∀ b, y.link b = x.link b ++ more b)
    (hmore : ∀ b, ∀ m ∈ more b, m.packet ≠ .ping ∧ m.time = x.now)
    (hside : ∀ b s, y.side b = .running s → x.side b = .running s ∨ Begins c x.now s) :
    Lively c d y := by
  have hpings : ∀ b, y.pings b = x.pings b := fun b => by
    have hnone : (more b).countP (·.packet = .ping) = 0 := by
      rw [List.countP_eq_zero]
      simpa using fun m hm => (hmore b m hm).1
    rw [pings, hlink, List.countP_append, hnone, Nat.add_zero, pings]
  have hwaits : ∀ b, y.waits b ≤ x.waits b := fun b => by
    cases hb : y.side b with
    | absent | ended _ => simp [waits, hb]
    | running s =>
      rw [waits_running hb]
      obtain hold | hnew := hside b s hb
      · exact Nat.le_of_eq (waits_running hold).symm
      · rw [hnew.waits]
        exact Nat.zero_le _
  have hmem : ∀ b, ∀ m ∈ y.link b, m ∈ x.link b ∨ m.time = x.now := fun b m hm =>
    (List.mem_append.1 (hlink b ▸ hm)).imp_right fun hm => (hmore b m hm).2
  constructor
  · intro b
    rw [hpings, hpings]
    exact Nat.le_trans (Nat.add_le_add (hwaits b) (hwaits !b)) (h.balance b)
  · intro b m hm
    exact hnow ▸ (hmem b m hm).elim (h.past b m) Nat.le_of_eq
  · intro b m hm
    exact hnow ▸ (hmem b m hm).elim (h.inTime b m) fun heq => heq ▸ Nat.le_add_right _ _
  · intro b s hs
    obtain hold | hnew := hside b s hs
    · have hsound := h.sides b s hold
      exact ⟨hsound.settings, hnow ▸ hsound.received, hnow ▸ hsound.pinged,
        hsound.attended.queued hnow (hlink b) (hlink !b) fun m hm => (hmore b m hm).1⟩
    · refine ⟨hnew.settings, ?_, ?_, .heard ?_ ?_⟩
      · exact hnow ▸ Nat.le_of_eq hnew.received
      · exact hnow ▸ Nat.le_of_eq hnew.pinged
      · exact Nat.le_of_eq (hnew.pinged.trans hnew.received.symm)
      · rw [hnow, hnew.received]
        exact Nat.le_add_right _ _

theorem Lively.opens {o : Opening} (h : Lively c d x) (hsettings : o.settings = c.sessionSettings)
    (hnow : o.view.now = x.now) : Lively c d (x.after a o.turn) := by
  have hsilent := (calm_start o.view o.nonce
    (Session.fresh o.settings o.direction o.mine o.peer o.view.now)).silent
  refine h.grow (Function.update (fun _ => []) a (posted x.now (sends o.turn.actions))) rfl
    (fun b => ?_) (fun b m hm => ?_) (fun b s hs => ?_) <;>
    obtain rfl | rfl := Bool.eq_or_eq_not b a
  · rw [Duplex.link_act_self, Function.update_self]
  · simp
  · rw [Function.update_self] at hm
    exact ⟨packet_ne_ping hsilent hm, time_of_posted hm⟩
  · simp at hm
  · rw [Duplex.side_act_self] at hs
    cases hnext : o.turn.next with
    | ok s' =>
      rw [hnext] at hs
      cases hs
      exact .inr (begins_opening hsettings hnow hnext)
    | error reason =>
      rw [hnext] at hs
      cases hs
  · exact .inl (x.side_act_other a _ _ ▸ hs)

theorem Lively.queued (h : Lively c d x) (a : Bool) (mime : String) (data : Bytes) :
    Lively c d (x.queue a mime data) := by
  refine h.grow (Function.update (fun _ => []) a [⟨.syncRequest mime data, x.now⟩]) rfl
    (fun b => ?_) (fun b m hm => ?_) (fun b s hs => .inl hs) <;>
    obtain rfl | rfl := Bool.eq_or_eq_not b a
  · simp
  · simp
  · rw [Function.update_self, List.mem_singleton] at hm
    subst hm
    exact ⟨nofun, rfl⟩
  · simp at hm

theorem Lively.passes {t : Time} (h : Lively c d x) (hopen : x.Open) (ht : x.MayPass d t) :
    Lively c d { x with now := t } := by
  obtain ⟨hforward, htimers, hpackets⟩ := ht
  refine ⟨h.balance, fun b m hm => Nat.le_trans (h.past b m hm) hforward,
    fun b m hm => hpackets b (hopen _) m hm, fun b s hs => ?_⟩
  have hsound := h.sides b s hs
  obtain ⟨u, hu, hle⟩ := nextDue_le (s := s) (k := .keepalive) rfl
  have hdue : t ≤ u := htimers b u (by rw [hs]; exact hu)
  exact ⟨hsound.settings, Nat.le_trans hsound.received hforward,
    Nat.le_trans hsound.pinged hforward, hsound.attended.of_now (Nat.le_trans hdue hle)⟩

theorem Step.lively (h : Step c d x y) (hd : d < c.sessionSettings.pingInterval)
    (hx : Lively c d x) (hopen : x.Open) (hstill : y.Open) : Lively c d y := by
  cases h with
  | opens o _ hsettings hnow => exact hx.opens hsettings hnow
  | @turn a s i x' v hs hnow hoccurs =>
    cases hnext : (s.step v i).next with
    | ok s' => exact Turns.after ⟨hx, hs, hnow, hoccurs, hnext⟩ hd
    | error reason =>
      have hover := hstill a
      rw [Duplex.side_act_self, hnext] at hover
      cases hover
  | queued a mime data => exact hx.queued a mime data
  | passes ht => exact hx.passes hopen ht

/-- A side that has ended does nothing any more. -/
theorem Step.isOver (h : Step c d x y) (ha : (x.side a).isOver = true) :
    (y.side a).isOver = true := by
  cases h with
  | @opens b o hb _ _ =>
    obtain rfl | rfl := Bool.eq_or_eq_not a b
    · rw [hb] at ha
      cases ha
    · rwa [Duplex.side_act_other]
  | @turn b s i x' v hs _ hoccurs =>
    obtain rfl | rfl := Bool.eq_or_eq_not a b
    · rw [hs] at ha
      cases ha
    · rwa [Duplex.side_act_other, hoccurs.side]
  | queued => exact ha
  | passes => exact ha

theorem Step.open_of_open (h : Step c d x y) (hopen : y.Open) : x.Open := fun a => by
  by_contra ha
  have hover := h.isOver (Bool.eq_true_of_not_eq_false ha)
  rw [hopen a] at hover
  cases hover

/-! ## Every run -/

theorem lively_fresh (now : Time) : Lively c d (fresh now) where
  balance a := by simp [waits, pings, fresh]
  past a m hm := nomatch hm
  inTime a m hm := nomatch hm
  sides a s hs := nomatch hs

theorem Run.lively (h : Run c d x) (hd : d < c.sessionSettings.pingInterval) (hopen : x.Open) :
    Lively c d x := by
  induction h with
  | start now => exact lively_fresh now
  | step _ hstep ih =>
    have hbefore := hstep.open_of_open hopen
    exact hstep.lively hd (ih hbefore) hbefore hopen

/-- The other side has been silent for at most an interval and the way to it and back. -/
theorem Lively.silence (h : Lively c d x) (hs : x.side a = .running s) :
    x.now ≤ s.lastReceived + (s.settings.pingInterval + 2 * d) := by
  obtain ⟨-, hin⟩ | ⟨-, hping, hlink, -⟩ | ⟨hm, htime⟩ := (h.sides a s hs).attended
  · exact Nat.le_trans hin (Nat.add_le_add_left (Nat.le_add_right _ _) _)
  · have hlate : x.now ≤ s.lastPing + d := h.inTime a ⟨.ping, s.lastPing⟩ (hlink ▸ by simp)
    rw [hping] at hlate
    exact Nat.le_trans hlate (by omega)
  · exact Nat.le_trans (h.inTime _ _ hm) (Nat.le_trans (Nat.add_le_add_right htime d) (by omega))

theorem Open.ne_ended {reason : CloseReason} (h : x.Open) (a : Bool) :
    x.side a ≠ .ended reason := by
  intro ha
  have hover := h a
  rw [ha] at hover
  cases hover

theorem error_of_ended {e : Except CloseReason Session} {reason : CloseReason}
    (h : Side.ofNext e = .ended reason) : e = .error reason := by
  cases e with
  | ok s => cases h
  | error _ =>
    cases h
    rfl

/-- A session ends for being idle only after silence for the idle timeout. -/
theorem Step.silence_of_idle (h : Step c d x y) (hopen : x.Open)
    (hidle : y.side a = .ended .idle) :
    ∃ s, x.side a = .running s ∧ s.lastReceived + s.settings.idleTimeout ≤ x.now := by
  cases h with
  | @opens b o _ _ _ =>
    obtain rfl | rfl := Bool.eq_or_eq_not a b
    · rw [Duplex.side_act_self] at hidle
      exact absurd (error_of_ended hidle) (calm_start o.view o.nonce _).reason
    · rw [Duplex.side_act_other] at hidle
      exact absurd hidle (hopen.ne_ended _)
  | @turn b s i x' v hs _ hoccurs =>
    obtain rfl | rfl := Bool.eq_or_eq_not a b
    · rw [Duplex.side_act_self] at hidle
      -- Only the idle timer ends a session for this reason, and it was due.
      obtain rfl := idle_of_next (error_of_ended hidle)
      cases hoccurs with
      | timer hdue hle =>
        cases hdue
        exact ⟨s, hs, hle⟩
      | other _ htimer => exact absurd rfl (htimer .idle)
    · rw [Duplex.side_act_other, hoccurs.side] at hidle
      exact absurd hidle (hopen.ne_ended _)
  | queued => exact absurd hidle (hopen.ne_ended _)
  | passes => exact absurd hidle (hopen.ne_ended _)

/-- **Silence is short.** Two sessions run under one configuration, and what one sends reaches the
other within a delay that is shorter than the ping interval; a ping interval and two delays are
shorter than the idle timeout; and timers fire when they are due. Whatever contents the two groups
send, whatever else happens and in whatever order: as long as both sessions are open, neither ends
because its peer was silent. -/
theorem silence_is_short (hd : d < c.sessionSettings.pingInterval)
    (hidle : c.sessionSettings.pingInterval + 2 * d < c.sessionSettings.idleTimeout)
    (hrun : Run c d x) (hopen : x.Open) (hstep : Step c d x y) (a : Bool) :
    y.side a ≠ .ended .idle := by
  intro hend
  have hlively := hrun.lively hd hopen
  obtain ⟨s, hs, hlong⟩ := hstep.silence_of_idle hopen hend
  have hshort := hlively.silence hs
  rw [(hlively.sides a s hs).settings] at hlong hshort
  exact absurd (Nat.le_trans hlong hshort) (by omega)

/-! ## Playing moves -/

/-- A side opens, a packet comes to it, its timer fires, or time passes. -/
inductive Move where
  | opens (a : Bool)
  | deliver (a : Bool)
  | fire (a : Bool) (k : Timer)
  | pass (t : Time)

/-- What a move leads to, if it can be made. Both sides see room in their outboxes and trust their
peers. -/
def move? (c : Config) (d : Nat) (x : Conversation) : Move → Option Conversation
  | .opens a =>
    let o : Opening := { Exchange.dialing a with
      settings := c.sessionSettings, view := Exchange.clear x.now }
    if x.side a = .absent then some (x.after a o.turn) else none
  | .deliver a =>
    match x.side a, (x.link (!a)).head? with
    | .running s, some m =>
      some ((x.read (!a)).after a (s.step (Exchange.clear x.now) (.received (.packet m.packet))))
    | _, _ => none
  | .fire a k =>
    match x.side a with
    | .running s =>
      if (s.due k).any (· ≤ x.now) then
        some (x.after a (s.step (Exchange.clear x.now) (.timer k)))
      else none
    | _ => none
  | .pass t => if x.MayPass d t then some { x with now := t } else none

theorem Step.of_move? {m : Move} (h : x.move? c d m = some y) : Step c d x y := by
  cases m with
  | opens a =>
    simp only [move?] at h
    split at h
    · rename_i habsent
      cases h
      exact .opens _ habsent rfl rfl
    · cases h
  | deliver a =>
    simp only [move?] at h
    split at h
    · rename_i s m hs hm
      cases h
      exact .turn _ hs rfl (.packet hm)
    · cases h
  | fire a k =>
    simp only [move?] at h
    split at h
    · rename_i s hs
      split at h
      · rename_i hdue
        cases h
        obtain ⟨u, hu, hle⟩ := (Option.any_eq_true _ _).1 hdue
        exact .turn _ hs rfl (.timer hu (by simpa using hle))
      · cases h
    · cases h
  | pass t =>
    simp only [move?] at h
    split at h
    · rename_i ht
      cases h
      exact .passes ht
    · cases h

theorem Run.of_play? {ms : List Move} (hrun : Run c d x) (h : play? (move? c d) x ms = some y) :
    Run c d y :=
  SharedClipboard.of_play? (P := fun _ => Run c d) (fun hx hmove => hx.step (.of_move? hmove)) hrun h

/-- Both sides open and get through the handshake. After an interval both send a keepalive, and each
takes the other's for the reply; then nothing happens for another interval. -/
def crossing : List Move :=
  [.opens false, .opens true, .pass 100, .deliver true, .deliver false, .pass 200, .deliver true,
    .deliver false, .pass 10200, .fire false .keepalive, .fire true .keepalive, .pass 10300,
    .deliver true, .deliver false, .pass 20300]

theorem silence_is_short_crossing : ∃ x y, Run (Config.default "/home") 100 x ∧ x.Open ∧
    x.now = 20300 ∧ Step (Config.default "/home") 100 x y ∧ y.pings false = 1 ∧
    ∀ a, y.side a ≠ .ended .idle := by
  have hplay : (play? (move? (Config.default "/home") 100) (fresh 0) crossing).any (fun x =>
      decide x.Open && x.now == 20300 &&
        (x.move? (Config.default "/home") 100 (.fire false .keepalive)).any (·.pings false == 1)) =
      true := by
    decide +kernel
  obtain ⟨x, hx, hlast⟩ := (Option.any_eq_true _ _).1 hplay
  simp only [Bool.and_eq_true, decide_eq_true_eq, beq_iff_eq] at hlast
  obtain ⟨⟨hopen, hnow⟩, hfires⟩ := hlast
  obtain ⟨y, hy, hpings⟩ := (Option.any_eq_true _ _).1 hfires
  have hrun : Run (Config.default "/home") 100 x := .of_play? (.start 0) hx
  have hstep : Step (Config.default "/home") 100 x y := .of_move? hy
  exact ⟨x, y, hrun, hopen, hnow, hstep, beq_iff_eq.1 hpings,
    silence_is_short (by decide) (by decide) hrun hopen hstep⟩

end Conversation

end SharedClipboard
