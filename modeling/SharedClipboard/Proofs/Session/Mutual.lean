import SharedClipboard.Proofs.Session.SmallestBound
import SharedClipboard.Proofs.Session.Undisturbed

/-!
# Two sessions admit each other

**Theorem (`both_admit_once`).** Two sessions see each other's fingerprints, no outbox is full, no
user refuses and no timer but the keepalives fires. Then neither ends for a failed handshake or a
packet out of order, and each tells its group at most once that the other may take part. When no
packet of the handshakes is under way and no user is asked, each has done so once, unless a packet
that is too long for its receiver came before that. There is none, and both sessions go on, if both
limits have room for a challenge and every content fits the limit of the side that it is sent to.

A challenge that comes late ends a session, and so does a second one or a second answer. None of
them can come, because links keep the order: a side sends its challenge before anything else and at
most one answer after it, so what a side has sent of its handshake is always what the other has
heard of it followed by what is under way (`Meets.link`). The flags of the two handshakes say how
much that is (`said`, `heard`), so the next packet under way is the one that the receiver waits for.

A limit is a matter of each node, so a node may be sent more than it takes. It then gives up the
connection and tells the other; a side that has not admitted the other by then never does
(`large_content_keeps_apart`). A limit with no room for a challenge refuses the challenge itself
(`joining_needs_room`).
-/

namespace SharedClipboard

namespace Exchange

open Session

variable {o : Bool → Opening} {a : Bool} {s : Session}

/-! ## The invariant -/

/-- What is under way from a side. It reports what it could not read when it ends, and sends
contents only after it has admitted the other. -/
inductive UnderWay (contents : Bool → Packet → Prop) (log : List Event) (x : Exchange) (a : Bool) :
    Packet → Prop where
  | ping : UnderWay contents log x a .ping
  | handshake {p : Packet} : p.type.isHandshake = true → UnderWay contents log x a p
  | invalid : x.Gone a → UnderWay contents log x a .invalid
  | content {mime : String} {data : Bytes} : admissions (momentsOf log a) = 1 →
      contents a (.syncRequest mime data) → Prefixed (.syncRequest mime data) →
      UnderWay contents log x a (.syncRequest mime data)

/-- Two sessions, each of which goes on or was cut short. What each has sent of its handshake is
heard by the other or under way to it, for as long as the other hears anything. -/
structure Meets (o : Bool → Opening) (contents : Bool → Packet → Prop) (log : List Event)
    (x : Exchange) (s : Bool → Session) : Prop where
  side : ∀ a, x.side a = .ok (s a) ∨ ∃ reason, x.side a = .error reason ∧ CutShort reason
  upright : ∀ a, Upright (o a).direction (o a).peer (o a).nonce (momentsOf log a) (s a)
  composed : ∀ a, Composed (o a) (s a)
  link : ∀ a, x.side (!a) = .ok (s (!a)) → ∃ got, got.length = heard (s (!a)).handshake ∧
    said o a (s a).handshake.answered = got ++ (x.link a).filter (·.type.isHandshake)
  underWay : ∀ a, ∀ p ∈ x.link a, UnderWay contents log x a p

variable {contents : Bool → Packet → Prop} {log : List Event} {x x' : Exchange}
  {sides : Bool → Session}

theorem UnderWay.mono {log' : List Event} {p : Packet} (h : UnderWay contents log x a p)
    (hadmitted : admissions (momentsOf log a) = 1 → admissions (momentsOf log' a) = 1)
    (hgone : x.Gone a → x'.Gone a) : UnderWay contents log' x' a p := by
  cases h with
  | ping => exact .ping
  | handshake hp => exact .handshake hp
  | invalid hx => exact .invalid (hgone hx)
  | content hone hcontent hprefixed => exact .content (hadmitted hone) hcontent hprefixed

theorem meets_opened (hroom : ∀ a, (o a).view.room = .free) :
    ∃ sides, Meets o contents [] (opened o) sides ∧ ∀ a, (opened o).side a = .ok (sides a) := by
  have hturn : ∀ a, (o a).turn =
      { Session.fresh (o a).settings (o a).direction (o a).mine (o a).peer (o a).view.now with
        handshake := ((Handshake.fresh (o a).settings.handshakeTimeout).issue (o a).view.now
          (o a).nonce).2 }.goOn [.send (.challengeRequest (o a).nonce)] := by
    intro a
    simp [Opening.turn, Session.start, Session.fresh, Handshake.fresh, Handshake.issue,
      Session.send, hroom a]
  have hlink : ∀ a, (opened o).link a = [.challengeRequest (o a).nonce] := by
    intro a
    show sends (o a).turn.actions = _
    rw [hturn]
    rfl
  have hside : ∀ a, (opened o).side a = _ := fun a => congrArg Turn.next (hturn a)
  refine ⟨_, ⟨fun a => .inl (hside a), fun a => ?_, fun a => ?_, fun a _ => ⟨[], ?_, ?_⟩,
    fun a p hp => ?_⟩, hside⟩
  · exact upright_start (o a).settings (o a).mine (o a).view.now (o a).view
      (congrArg Turn.next (hturn a))
  · refine ⟨rfl, rfl, ?_, ?_, ?_⟩ <;>
      simp [Session.fresh, Handshake.fresh, Handshake.issue, Handshake.awaitingDecision]
  · rfl
  · rw [hlink]
    rfl
  · rw [hlink, List.mem_singleton] at hp
    rw [hp]
    exact .handshake rfl

/-- Whom a side has admitted stays admitted. -/
theorem admitted_snoc {b : Bool} {v : View} {i : Input}
    (hup : admissions (momentsOf (log ++ [event a s v i]) a) ≤ 1)
    (hone : admissions (momentsOf log b) = 1) :
    admissions (momentsOf (log ++ [event a s v i]) b) = 1 := by
  obtain rfl | rfl := Bool.eq_or_eq_not b a
  · rw [momentsOf_snoc_self, admissions_snoc] at hup ⊢
    omega
  · rwa [momentsOf_snoc_other]

/-- A turn keeps the invariant, whatever comes of it, if the side has heard what came. -/
theorem Meets.turn {v : View} {i : Input} {s' : Session} (h : Meets o contents log x sides)
    (hs : x.side a = .ok (sides a)) (came : Option Packet) (hside : x'.side = x.side)
    (hself : x'.link a = x.link a) (hother : x.link (!a) = came.toList ++ x'.link (!a))
    (ht : Passes o a (sides a) (came.any (·.type.isHandshake)) v i s') :
    Meets o contents (log ++ [event a (sides a) v i]) (x'.after a ((sides a).step v i))
      (Function.update sides a s') := by
  have hup := ht.upright (h.upright a)
  have hle : admissions (momentsOf (log ++ [event a (sides a) v i]) a) ≤ 1 := by
    rw [momentsOf_snoc_self]
    exact hup.course.admissions_le
  -- The side that acts is the first case of each part, the other side the second.
  constructor
  · intro b
    obtain rfl | rfl := Bool.eq_or_eq_not b a
    · rw [Duplex.side_act_self, Function.update_self]
      exact ht.next
    · rw [Duplex.side_act_other, hside, Function.update_of_ne (Bool.not_eq_self a).1]
      exact h.side (!a)
  · intro b
    obtain rfl | rfl := Bool.eq_or_eq_not b a
    · rw [momentsOf_snoc_self, Function.update_self]
      exact hup
    · rw [momentsOf_snoc_other, Function.update_of_ne (Bool.not_eq_self a).1]
      exact h.upright (!a)
  · intro b
    obtain rfl | rfl := Bool.eq_or_eq_not b a
    · rw [Function.update_self]
      exact ht.composed
    · rw [Function.update_of_ne (Bool.not_eq_self a).1]
      exact h.composed (!a)
  · intro b hb
    obtain rfl | rfl := Bool.eq_or_eq_not b a
    · rw [Duplex.side_act_other, hside, Function.update_of_ne (Bool.not_eq_self b).1] at hb
      obtain ⟨got, hlen, hsaid⟩ := h.link b hb
      refine ⟨got, by simpa using hlen, ?_⟩
      rw [Function.update_self, ht.said, hsaid, Duplex.link_act_self, hself, List.filter_append,
        List.append_assoc]
    · rw [Bool.not_not, Duplex.side_act_self, Function.update_self] at hb
      obtain ⟨got, hlen, hsaid⟩ := h.link (!a) (by rw [Bool.not_not, hs])
      refine ⟨got ++ came.toList.filter (·.type.isHandshake), ?_, ?_⟩
      · rw [Bool.not_not] at hlen
        rw [Bool.not_not, Function.update_self, ht.heard hb, List.length_append, hlen]
        cases came with
        | none => rfl
        | some p => cases hp : p.type.isHandshake <;> simp [hp]
      · rw [Function.update_of_ne (Bool.not_eq_self a).1, Duplex.link_act_other, hsaid, hother,
          List.filter_append, List.append_assoc]
  · intro b p hp
    obtain rfl | rfl := Bool.eq_or_eq_not b a
    · rw [Duplex.link_act_self, hself, List.mem_append] at hp
      obtain hold | hnew := hp
      · refine (h.underWay b p hold).mono (admitted_snoc hle) fun ⟨reason, hreason⟩ => ?_
        rw [hs] at hreason
        cases hreason
      · obtain rfl | hhand | ⟨rfl, reason, hreason⟩ := ht.sent p hnew
        · exact .ping
        · exact .handshake hhand
        · exact .invalid ⟨reason, by rw [Duplex.side_act_self, hreason]⟩
    · rw [Duplex.link_act_other] at hp
      have hold : p ∈ x.link (!a) := hother ▸ List.mem_append_right _ hp
      refine (h.underWay (!a) p hold).mono (admitted_snoc hle) fun ⟨reason, hreason⟩ => ?_
      exact ⟨reason, by rw [Duplex.side_act_other, hside, hreason]⟩

theorem Meets.queued {mime : String} {data : Bytes} (h : Meets o contents log x sides)
    (hcontent : (undisturbed contents).content x a mime data) :
    Meets o contents log (x.queue a mime data) sides := by
  obtain ⟨⟨s, hs, hauth⟩, hmay, hprefixed⟩ := hcontent
  refine ⟨h.side, h.upright, h.composed, fun b hb => ?_, fun b p hp => ?_⟩
  · obtain ⟨got, hlen, hsaid⟩ := h.link b hb
    refine ⟨got, hlen, hsaid.trans ?_⟩
    obtain rfl | rfl := Bool.eq_or_eq_not b a <;> simp [Packet.type, PacketType.isHandshake]
  · obtain rfl | rfl := Bool.eq_or_eq_not b a
    · rw [Duplex.link_put_self, List.mem_append, List.mem_singleton] at hp
      obtain hold | rfl := hp
      · exact (h.underWay b p hold).mono id id
      · have hgoes : sides b = s := by
          obtain hok | ⟨reason, herror, -⟩ := h.side b
          · exact Except.ok.inj (hok.symm.trans hs)
          · rw [hs] at herror
            cases herror
        exact .content ((h.upright b).admissions_eq_one (hgoes ▸ hauth)) hmay hprefixed
    · rw [Duplex.link_put_other] at hp
      exact (h.underWay (!a) p hp).mono id id

/-! ## What comes next -/

/-- The packet of the handshake that comes next is the challenge of the other side, if the side has
not answered one, and else its answer. -/
theorem Meets.next (h : Meets o contents log x sides) (hs : x.side a = .ok (sides a)) {p : Packet}
    (hhead : (x.link (!a)).head? = some p) (hp : p.type.isHandshake = true) :
    (p = .challengeRequest (o (!a)).nonce ∧ (sides a).handshake.answered = false) ∨
      (p = .challengeResponse (Challenge.answer (o a).nonce (o (!a)).mine) ∧
        (sides a).handshake.answered = true ∧ (sides a).handshake.verified = false) := by
  obtain ⟨rest, hlink⟩ := List.head?_eq_some_iff.1 hhead
  obtain ⟨got, hlen, hsaid⟩ := h.link (!a) (by rw [Bool.not_not, hs])
  rw [hlink, List.filter_cons, if_pos hp, said, Bool.not_not] at hsaid
  rw [Bool.not_not, heard] at hlen
  have hanswered := (h.composed a).answered
  -- What is still on the link are the last of the at most two packets that the other side has said.
  cases got with
  | nil =>
    rw [List.nil_append, List.cons.injEq] at hsaid
    refine .inl ⟨hsaid.1.symm, ?_⟩
    rw [← Bool.toNat_eq_zero]
    simp only [List.length_nil] at hlen
    omega
  | cons g got =>
    split at hsaid
    · cases got with
      | nil =>
        rw [List.cons_append, List.nil_append, List.cons.injEq, List.cons.injEq] at hsaid
        have hone : 1 = (sides a).handshake.answered.toNat +
            (sides a).handshake.verified.toNat := hlen
        refine .inr ⟨hsaid.2.1.symm, ?_⟩
        cases hver : (sides a).handshake.verified with
        | false =>
          rw [hver, Bool.toNat_false, Nat.add_zero] at hone
          exact ⟨Bool.toNat_eq_one.1 hone.symm, rfl⟩
        | true =>
          rw [hver, hanswered hver] at hone
          cases hone
      | cons _ _ => simp at hsaid
    · simp at hsaid

/-- A packet of the handshake that comes next has one field, which is as long as a challenge. -/
theorem Meets.next_field (h : Meets o contents log x sides) (hs : x.side a = .ok (sides a))
    (hnonce : ∀ a, (o a).nonce.length = Challenge.nonceLength) {p : Packet}
    (hhead : (x.link (!a)).head? = some p) (hp : p.type.isHandshake = true) :
    ∃ f, p.fields = [f] ∧ f.length = Challenge.nonceLength := by
  obtain ⟨rfl, -⟩ | ⟨rfl, -, -⟩ := h.next hs hhead hp
  · exact ⟨_, rfl, hnonce (!a)⟩
  · exact ⟨_, rfl, Challenge.length_answer _ _⟩

/-- What is cut short is cut short by the end of the other side, or by a packet that is too long. -/
def Breaks (x : Exchange) (a : Bool) (s : Session) (i : Input) : Prop :=
  (x.Gone (!a) ∧ ∀ cause, i ≠ .received (.undecodable cause)) ∨
    ∃ p, (x.link (!a)).head? = some p ∧ ¬ s.settings.codec.Fits p ∧
      ∃ cause, i = .received (.undecodable cause)

/-- Whatever comes to a side that nobody disturbs, the side goes on or is cut short for a reason. -/
theorem Meets.comes {v : View} {i : Input} (h : Meets o contents log x sides)
    (hs : x.side a = .ok (sides a)) (hpeer : ∀ a, (o a).peer = (o (!a)).mine)
    (hnonce : ∀ a, (o a).nonce.length = Challenge.nonceLength)
    (hi : (undisturbed contents).comes x a (sides a) v i x') :
    ∃ s', Meets o contents (log ++ [event a (sides a) v i]) (x'.after a ((sides a).step v i))
        (Function.update sides a s') ∧
      (((sides a).step v i).next = .ok s' ∨ Breaks x a (sides a) i) := by
  obtain ⟨hroom, hcomes⟩ := hi
  have hs' := h.composed a
  -- Outboxes are closed only when the other side is gone, so it does no harm to think of room.
  have hopen : ∀ (came : Option Packet) {y : Exchange}, y.side = x.side → y.link a = x.link a →
      x.link (!a) = came.toList ++ y.link (!a) →
      (∀ cause, i ≠ .received (.undecodable cause)) →
      (∃ s', Steady o a (sides a) (came.any (·.type.isHandshake))
        ((sides a).step { v with room := .free } i) s') →
      ∃ s', Meets o contents (log ++ [event a (sides a) v i]) (y.after a ((sides a).step v i))
          (Function.update sides a s') ∧
        (((sides a).step v i).next = .ok s' ∨ Breaks x a (sides a) i) := by
    intro came y hside hself hother hread hsteady
    obtain ⟨s', ht⟩ | ⟨hclosed, hends⟩ :=
      steady_or_ends hread (hroom.imp_right And.left) hsteady
    · exact ⟨s', h.turn hs came hside hself hother ht.passes, .inl ht.next⟩
    · have hgone : x.Gone (!a) := by
        obtain hfree | ⟨-, hgone⟩ := hroom
        · rw [hfree] at hclosed
          cases hclosed
        · exact hgone
      exact ⟨_, h.turn hs came hside hself hother (hends.passes hs' _), .inr (.inl ⟨hgone, hread⟩)⟩
  cases hcomes with
  | keepalive => exact hopen none rfl rfl rfl (by simp) (steady_keepalive hs' rfl)
  | consent hasked => exact hopen none rfl rfl rfl (by simp) (steady_consent hs' hasked)
  | lost hgone hlost =>
    refine ⟨_, h.turn hs none rfl rfl rfl ((ends_of_lost hlost _ v).passes hs' _),
      .inr (.inl ⟨hgone, ?_⟩)⟩
    cases hlost <;> simp
  | @packet p hhead =>
    have hlink : x.link (!a) = (some p).toList ++ (x.read (!a)).link (!a) :=
      Duplex.link_of_head? hhead
    have hself : (x.read (!a)).link a = x.link a := x.link_take_other a
    have hway := h.underWay (!a) p (List.mem_of_mem_head? hhead)
    -- A packet that does not fit comes as bytes that are no packet, and cuts the side short.
    by_cases hfits : (sides a).settings.codec.Fits p
    · rw [arrival_of_fits hfits] at hopen ⊢
      cases hway with
      | ping => exact hopen (some .ping) rfl hself hlink (by simp) (steady_ping hs' rfl)
      | content _ _ _ =>
        exact hopen (some _) rfl hself hlink (by simp) (steady_content hs' _ _ _)
      | invalid hgone =>
        have hstop : (sides a).step v (.received (.packet .invalid)) =
            stop .peerReportedInvalid := by
          simp [step, onReceived, onPacket, PacketType.isHandshake, Packet.type]
        have hends := ends_of_stop hstop trivial rfl
        exact ⟨_, h.turn hs (some .invalid) rfl hself hlink (hends.passes hs' _),
          .inr (.inl ⟨hgone, by simp⟩)⟩
      | handshake hp =>
        refine hopen (some p) rfl hself hlink (by simp) ?_
        rw [Option.any_some, hp]
        obtain ⟨rfl, hfirst⟩ | ⟨rfl, hheard, hfirst⟩ := h.next hs hhead hp
        · exact steady_challenge hs' rfl (hnonce (!a)) hfirst
        · exact steady_response hs' (h.upright a) (hpeer a) hheard hfirst
    · have hprefixed : Prefixed p := by
        cases hway with
        | ping | invalid _ => exact fun f hf => absurd hf List.not_mem_nil
        | content _ _ hprefixed => exact hprefixed
        | handshake hp =>
          obtain ⟨f, hfield, hlength⟩ := h.next_field hs hnonce hhead hp
          intro g hg
          rw [hfield, List.mem_singleton] at hg
          rw [hg, hlength]
          decide
      obtain ⟨cause, hcause⟩ := arrival_of_tooLong hprefixed hfits
      rw [hcause]
      exact ⟨_, h.turn hs (some p) rfl hself hlink
        ((ends_of_undecodable _ v cause).passes hs' _),
        .inr (.inr ⟨p, hhead, hfits, cause, rfl⟩)⟩

/-! ## Every run -/

/-- What was refused was refused after the receiver had admitted the other side. -/
def RefusedLate (log : List Event) : Prop :=
  ∀ e ∈ log, e.IsRefusal → e.before.handshake.isAuthenticated = true

theorem RefusedLate.left {e : Event} (h : RefusedLate (log ++ [e])) : RefusedLate log :=
  fun e' he' => h e' (List.mem_append_left _ he')

/-- Both limits have room for a challenge, and every content fits where it is sent. -/
structure Roomy (o : Bool → Opening) (contents : Bool → Packet → Prop) : Prop where
  challenge : ∀ a, Challenge.nonceLength ≤ (o a).settings.codec.maxPayload
  content : ∀ a p, contents a p → (o (!a)).settings.codec.Fits p

/-- If nothing is refused too early, then a side is cut short only after both have been admitted. -/
theorem Meets.joined_turn {v : View} {i : Input} (h : Meets o contents log x sides)
    (hs : x.side a = .ok (sides a)) (hbreaks : Breaks x a (sides a) i)
    (hlate : RefusedLate (log ++ [event a (sides a) v i]))
    (ih : ∀ b, x.Gone b → ∀ b', admissions (momentsOf log b') = 1) (b : Bool) :
    admissions (momentsOf log b) = 1 := by
  obtain ⟨hgone, -⟩ | ⟨p, hhead, hlong, hrefused⟩ := hbreaks
  · exact ih _ hgone b
  -- The side that refuses the packet was done, by the assumption on refusals.
  · have hauth : (sides a).handshake.isAuthenticated = true :=
      hlate (event a (sides a) v i) (List.mem_append_right _ (List.mem_singleton_self _)) hrefused
    have hself := (h.upright a).admissions_eq_one hauth
    cases h.underWay (!a) p (List.mem_of_mem_head? hhead) with
    | ping => exact absurd (fun f hf => nomatch hf) hlong
    | invalid hgone => exact ih _ hgone b
    | content hother _ _ =>
      obtain rfl | rfl := Bool.eq_or_eq_not b a
      · exact hself
      · exact hother
    | handshake hp =>
      have hver : (sides a).handshake.verified = true := (h.composed a).verified (by
        simpa [Handshake.isAuthenticated] using hauth)
      obtain ⟨-, hfirst⟩ | ⟨-, -, hfirst⟩ := h.next hs hhead hp
      · rw [(h.composed a).answered hver] at hfirst
        cases hfirst
      · rw [hver] at hfirst
        cases hfirst

/-- If everything fits, nothing that comes is too long. -/
theorem Meets.not_breaks {i : Input} (h : Meets o contents log x sides)
    (hs : ∀ a, x.side a = .ok (sides a))
    (hnonce : ∀ a, (o a).nonce.length = Challenge.nonceLength) (hroomy : Roomy o contents) :
    ¬ Breaks x a (sides a) i := by
  have hgoes : ∀ b, ¬ x.Gone b := fun b ⟨reason, herror⟩ => by
    rw [hs b] at herror
    cases herror
  rintro (⟨hgone, -⟩ | ⟨p, hhead, hlong, -⟩)
  · exact hgoes _ hgone
  · refine hlong ?_
    have hsettings := (h.composed a).settings
    cases h.underWay (!a) p (List.mem_of_mem_head? hhead) with
    | ping => exact fun f hf => nomatch hf
    | invalid hgone => exact absurd hgone (hgoes _)
    | content _ hcontent _ =>
      have hfits := hroomy.content (!a) _ hcontent
      rw [Bool.not_not] at hfits
      rwa [hsettings]
    | handshake hp =>
      obtain ⟨f, hfield, hlength⟩ := h.next_field (hs a) hnonce hhead hp
      exact Codec.fits_of_nonceLength hfield hlength (hsettings ▸ hroomy.challenge a)

/-- What every undisturbed run comes to. -/
structure Reached (o : Bool → Opening) (contents : Bool → Packet → Prop) (log : List Event)
    (x : Exchange) (s : Bool → Session) : Prop where
  meets : Meets o contents log x s
  joined : RefusedLate log → ∀ a, x.Gone a → ∀ b, admissions (momentsOf log b) = 1
  roomy : Roomy o contents → (∀ a, x.side a = .ok (s a)) ∧ ∀ e ∈ log, ¬ e.IsRefusal

theorem reached_run {last : Exchange} (hroom : ∀ a, (o a).view.room = .free)
    (hpeer : ∀ a, (o a).peer = (o (!a)).mine)
    (hnonce : ∀ a, (o a).nonce.length = Challenge.nonceLength)
    (hrun : Run (undisturbed contents) (opened o) log last) :
    ∃ sides, Reached o contents log last sides := by
  -- Of what every run comes to: the invariant, and what it takes for a side to be gone.
  induction hrun with
  | start =>
    obtain ⟨sides, hmeets, hgoes⟩ := meets_opened hroom
    refine ⟨sides, hmeets, fun _ a ⟨reason, herror⟩ => ?_, fun _ => ⟨hgoes, by simp⟩⟩
    rw [hgoes a] at herror
    cases herror
  | @turn log x x' a s i v _ hs hi ih =>
    obtain ⟨sides, hmeets, hjoined, hroomy⟩ := ih
    obtain rfl : sides a = s := by
      obtain hok | ⟨reason, herror, -⟩ := hmeets.side a
      · exact Except.ok.inj (hok.symm.trans hs)
      · rw [hs] at herror
        cases herror
    obtain ⟨s', hnew, hnext⟩ := hmeets.comes hs hpeer hnonce hi
    refine ⟨_, hnew, fun hlate b hgone b' => ?_, fun hfits => ?_⟩
    · have hbefore : ∀ b, admissions (momentsOf log b) = 1 := by
        obtain hok | hbreaks := hnext
        · -- The side goes on, so the one that is gone was gone before.
          refine hjoined hlate.left b ?_
          obtain ⟨reason, herror⟩ := hgone
          obtain rfl | rfl := Bool.eq_or_eq_not b a
          · rw [Duplex.side_act_self, hok] at herror
            cases herror
          · rw [Duplex.side_act_other, hi.2.side] at herror
            exact ⟨reason, herror⟩
        · exact hmeets.joined_turn hs hbreaks hlate (hjoined hlate.left)
      exact admitted_snoc (hnew.upright a).course.admissions_le (hbefore b')
    · obtain ⟨hgoes, hnone⟩ := hroomy hfits
      have hok := hnext.resolve_right (hmeets.not_breaks hgoes hnonce hfits)
      refine ⟨fun b => ?_, fun e he => ?_⟩
      · obtain rfl | rfl := Bool.eq_or_eq_not b a
        · rw [Duplex.side_act_self, Function.update_self, hok]
        · rw [Duplex.side_act_other, hi.2.side, Function.update_of_ne (Bool.not_eq_self a).1]
          exact hgoes (!a)
      · rw [List.mem_append, List.mem_singleton] at he
        obtain he | rfl := he
        · exact hnone e he
        · rintro ⟨cause, rfl⟩
          cases hok
  | queued _ hcontent ih =>
    obtain ⟨sides, hmeets, hjoined, hroomy⟩ := ih
    exact ⟨sides, hmeets.queued hcontent, hjoined, hroomy⟩

/-! ## Both sides are admitted -/

theorem length_said (o : Bool → Opening) (a : Bool) (answered : Bool) :
    (said o a answered).length = 1 + answered.toNat := by
  cases answered <;> rfl

/-- When no packet of the handshakes is under way and both sides go on, each has found the answer of
the other right. -/
theorem Meets.verified (h : Meets o contents log x sides) (hs : ∀ a, x.side a = .ok (sides a))
    (hquiet : ∀ a, ∀ p ∈ x.link a, p.type.isHandshake = false) (a : Bool) :
    (sides a).handshake.verified = true := by
  have hheard : ∀ b, 1 + (sides b).handshake.answered.toNat =
      heard (sides (!b)).handshake := by
    intro b
    obtain ⟨got, hlen, hsaid⟩ := h.link b (hs (!b))
    have hnone : (x.link b).filter (·.type.isHandshake) = [] :=
      List.filter_eq_nil_iff.2 fun p hp => by simp [hquiet b p hp]
    rw [← length_said o b, hsaid, hnone, List.append_nil, hlen]
  -- Each side has heard one packet more than it takes to answer, so both have heard two.
  have hself := hheard a
  have hother := hheard (!a)
  rw [Bool.not_not] at hother
  have hle := Bool.toNat_le (sides (!a)).handshake.verified
  have hle' := Bool.toNat_le (sides a).handshake.verified
  rw [← Bool.toNat_eq_one]
  simp only [heard] at hself hother
  omega

/-- A side that goes on, has found the answer right and waits for no user has admitted the other. -/
theorem Meets.admitted (h : Meets o contents log x sides)
    (hver : (sides a).handshake.verified = true) (hsettled : (sides a).decisionDue = none) :
    admissions (momentsOf log a) = 1 := by
  have hasked := (h.composed a).asking
  rw [hsettled] at hasked
  cases (h.upright a).course with
  | waiting _ _ _ _ _ verified =>
    rw [hver] at verified
    cases verified
  | asked state verified =>
    rw [Handshake.awaitingDecision, state, verified] at hasked
    cases hasked
  | joined _ _ admissions => exact admissions

/-- **Both admit each other.** Two sessions see each other's fingerprints, and nobody disturbs them,
whatever the order in which packets come, keepalives fire, users consent and contents are sent. Then
neither ends for a failed handshake or a violation of the protocol, and each tells its group at most
once that the other may take part. When no packet of the handshakes is under way and no user is
asked, each has done so once, unless a side was sent what is too long for it before it had. If the
limits of both have room for a challenge and every content fits where it is sent, then neither side
ends and nothing is ever too long. -/
theorem both_admit_once {last : Exchange} (hroom : ∀ a, (o a).view.room = .free)
    (hpeer : ∀ a, (o a).peer = (o (!a)).mine)
    (hnonce : ∀ a, (o a).nonce.length = Challenge.nonceLength)
    (hrun : Run (undisturbed contents) (opened o) log last) :
    (∀ a reason, last.side a = .error reason →
        (∀ cause, reason ≠ .auth cause) ∧ ∀ what, reason ≠ .protocolViolation what) ∧
      (∀ a, admissions (momentsOf log a) ≤ 1) ∧
      ((∀ e ∈ log, e.IsRefusal → e.before.handshake.isAuthenticated = true) →
        (∀ a, ∀ p ∈ last.link a, p.type.isHandshake = false) →
        (∀ a s, last.side a = .ok s → s.decisionDue = none) →
        ∀ a, admissions (momentsOf log a) = 1) ∧
      ((∀ a, Challenge.nonceLength ≤ (o a).settings.codec.maxPayload) →
        (∀ a p, contents a p → (o (!a)).settings.codec.Fits p) →
        (∀ a, ∃ s, last.side a = .ok s) ∧ ∀ e ∈ log, ¬ e.IsRefusal) := by
  obtain ⟨sides, hmeets, hjoined, hroomy⟩ := reached_run hroom hpeer hnonce hrun
  refine ⟨fun a reason herror => ?_, fun a => (hmeets.upright a).course.admissions_le,
    fun hlate hquiet hsettled a => ?_, fun hchallenge hcontent => ?_⟩
  · obtain hok | ⟨reason', herror', hcut⟩ := hmeets.side a
    · rw [hok] at herror
      cases herror
    · obtain rfl : reason' = reason := Except.error.inj (herror'.symm.trans herror)
      refine ⟨fun cause => ?_, fun what => ?_⟩ <;> rintro rfl <;> exact hcut
  -- A side that is gone was so only after both were admitted; if none is, both are done.
  · by_cases hgone : ∃ b, last.Gone b
    · obtain ⟨b, hb⟩ := hgone
      exact hjoined hlate b hb a
    · have hgoes : ∀ b, last.side b = .ok (sides b) := fun b =>
        (hmeets.side b).resolve_right fun ⟨reason, herror, _⟩ => hgone ⟨b, reason, herror⟩
      exact hmeets.admitted (hmeets.verified hgoes hquiet a) (hsettled a _ (hgoes a))
  · obtain ⟨hgoes, hnone⟩ := hroomy ⟨hchallenge, hcontent⟩
    exact ⟨fun a => ⟨sides a, hgoes a⟩, hnone⟩

/-! ## A guest that nobody knows -/

/-- A node with the usual limit dials another with the given limit, and neither has seen the other
before. -/
def firstContact (bound : Nat) (a : Bool) : Opening where
  settings := if a then { guestSession.settings with codec := ⟨bound⟩ } else guestSession.settings
  direction := if a then .inbound else .outbound
  mine := if a then none else some guest
  peer := if a then some guest else none
  view := quietView
  nonce := if a then guestNonce else List.replicate 32 3

def usual (_ : Bool) (p : Packet) : Prop := Codec.default.Fits p

/-- Packets come, keepalives fire, a user who is asked consents, and a side that has admitted the
other sends what the usual limit admits. -/
def calm (x : Exchange) : Move → Bool
  | .deliver _ v => v.room = .free
  | .happen a v i => v.room = .free ∧ (i = .timer .keepalive ∨
      (i = .decided true ∧ (x.side a).toOption.any (·.decisionDue.isSome)))
  | .send a mime data => (x.side a).toOption.any (·.handshake.isAuthenticated) ∧
      Codec.default.Fits (.syncRequest mime data)

theorem undisturbed_allows : (undisturbed usual).Allows calm where
  deliver hok _ hp := by
    rw [calm, decide_eq_true_eq] at hok
    exact ⟨.inl hok, .packet hp⟩
  happen {x a s v i} hok hs := by
    rw [calm, decide_eq_true_eq, hs] at hok
    obtain ⟨hroom, rfl | ⟨rfl, hasked⟩⟩ := hok
    · exact ⟨.inl hroom, .keepalive⟩
    · exact ⟨.inl hroom, .consent hasked⟩
  send {x a mime data} hok := by
    rw [calm, decide_eq_true_eq] at hok
    obtain ⟨hadmitted, hfits⟩ := hok
    cases hs : x.side a with
    | error reason =>
      rw [hs] at hadmitted
      cases hadmitted
    | ok s =>
      rw [hs] at hadmitted
      exact ⟨⟨s, hs, hadmitted⟩, hfits, fun f hf => (hfits f hf).2⟩

def comesTo (a : Bool) : Move := .deliver a quietView

/-- The node that dialed admits the other first and sends a content at once. The other hears it
before its user has decided. -/
def firstContactMoves : List Move :=
  [comesTo true, comesTo false, comesTo false, .send false "text/plain" [1],
    .happen true quietView (.timer .keepalive), comesTo true, comesTo true,
    .happen true quietView (.decided true), comesTo false, comesTo true]

/-- Both have admitted the other once when the user has consented. -/
theorem both_admit_once_first_contact :
    ∃ log last, Run (undisturbed usual) (opened (firstContact Codec.defaultMaxPayload)) log last ∧
      log.length = 9 ∧ (∀ a, last.link a = []) ∧ ∀ a, admissions (momentsOf log a) = 1 := by
  have hplay : (play? (move? calm) ([], opened (firstContact Codec.defaultMaxPayload))
      firstContactMoves).any (fun r => r.1.length = 9 ∧ (∀ a, r.2.link a = []) ∧
        ∀ a, (r.2.side a).toOption.bind (·.decisionDue) = none) = true := by
    decide +kernel
  obtain ⟨⟨log, last⟩, hr, hend⟩ := (Option.any_eq_true _ _).1 hplay
  obtain ⟨hlen, hempty, hdecided⟩ := of_decide_eq_true hend
  have hrun : Run (undisturbed usual) (opened (firstContact Codec.defaultMaxPayload)) log last :=
    .of_play? undisturbed_allows .start hr
  obtain ⟨-, -, honce, hfits⟩ := both_admit_once (fun a => by cases a <;> rfl)
    (fun a => by cases a <;> rfl) (fun a => by cases a <;> rfl) hrun
  obtain ⟨-, hnone⟩ :=
    hfits (fun a => by cases a <;> decide) (fun a p hp => by cases a <;> exact hp)
  refine ⟨log, last, hrun, hlen, hempty, honce (fun e he hrefused => absurd hrefused (hnone e he))
    (fun a p hp => ?_) (fun a s hs => ?_)⟩
  · rw [hempty a] at hp
    cases hp
  · have hsettled := hdecided a
    rw [hs] at hsettled
    exact hsettled

/-- The node that dialed sends a content of 33 bytes as soon as it has admitted the other. -/
def largeContentMoves : List Move :=
  [comesTo true, comesTo false, comesTo false, .send false "text/plain" (List.replicate 33 1),
    comesTo true, comesTo true, comesTo false]

/-- Why a side has ended, if it has. -/
def ended? (x : Exchange) (a : Bool) : Option CloseReason :=
  match x.side a with
  | .ok _ => none
  | .error reason => some reason

/-- A node with a limit of 32 never admits the node that dialed it: while its user is asked, a
content of 33 bytes comes, which the limit of the sender admits. Nothing is under way then, and
nobody is asked. -/
theorem large_content_keeps_apart :
    ∃ log last, Run (undisturbed usual) (opened (firstContact 32)) log last ∧
      (∀ a, last.link a = []) ∧ (∀ a s, last.side a = .ok s → s.decisionDue = none) ∧
      last.side true = .error (.decode (.lengthOverflow 33 32)) ∧
      admissions (momentsOf log false) = 1 ∧ admissions (momentsOf log true) = 0 := by
  have hplay : (play? (move? calm) ([], opened (firstContact 32)) largeContentMoves).any
      (fun r => (∀ a, r.2.link a = []) ∧ r.2.ended? false = some .peerReportedInvalid ∧
        r.2.ended? true = some (.decode (.lengthOverflow 33 32)) ∧
        admissions (momentsOf r.1 false) = 1 ∧ admissions (momentsOf r.1 true) = 0) = true := by
    decide +kernel
  obtain ⟨⟨log, last⟩, hr, hend⟩ := (Option.any_eq_true _ _).1 hplay
  obtain ⟨hempty, hreported, hdecode, hone, hnever⟩ := of_decide_eq_true hend
  have hside : ∀ a reason, last.ended? a = some reason → last.side a = .error reason := by
    intro a reason hended
    unfold ended? at hended
    split at hended
    · cases hended
    · cases hended
      assumption
  refine ⟨log, last, .of_play? undisturbed_allows .start hr, hempty, fun a s hs => ?_,
    hside true _ hdecode, hone, hnever⟩
  cases a
  · rw [hside false _ hreported] at hs
    cases hs
  · rw [hside true _ hdecode] at hs
    cases hs

end Exchange

end SharedClipboard
