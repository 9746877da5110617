import SharedClipboard.Proofs.Node.Station

/-!
# Who may join

**Theorem (`admitted_by_trust_consent_or_discovery`).** In every run of a station in which the user
never names a device to connect to, a session becomes a member, and a certificate gets into the
registry, only by a step of that session (`Admission`) at which one of three things holds: the
registry trusts the certificate that the peer presents, or the user answered that this peer may
join, or the node dialed the peer of its own accord, because discovery reported it.

So nobody joins without consent whom the node does not dial itself. Whom it dials of its own accord
does join without consent (`advertised_device_is_admitted`): a session on a connection that this
side opened never asks.

The invariant (`Sound`) follows the chain from discovery to membership: what the node knows was
reported, what is dialed is known, what a session believes about its connection is so, and what the
node is told of an admission happened.
-/

namespace SharedClipboard.Station

variable {first s s' : Station} {hs : List Happening} {h : Happening}

/-! ## Admission and consent -/

/-- If the session takes the `n`th of what is ready next, it tells the node that its peer may take
part. -/
def Admits (s : Station) (id : SessionId) (n : Nat) : Prop :=
  ∃ l m, s.lines.get? id = some l ∧
    l.move? s.config s.now s.registry.trusts (.session n) = some m ∧
    .report .authenticated ∈ m.notes

/-- In a run, the session on a connection that had been opened in this way admitted its peer by the
step that came after `before`, when the station was `s`. -/
structure Admission (first : Station) (hs : List Happening) (id : SessionId) (w : Wire)
    (how : Opening) (before : List Happening) (s : Station) : Prop where
  within : ∃ n after, hs = before ++ .moves id (.session n) :: after ∧ s.Admits id n
  run : Run first before s
  opened : ∃ conn, .opens id w conn how ∈ before

/-- Discovery reported the device, and the node is one that dials it then. -/
def Offered (first : Station) (hs : List Happening) (d : Device) : Prop :=
  first.node.autoConnect = true ∧ first.node.identity.dialsFirst first.node.port d = true ∧
    .discovers (.added d) ∈ hs

/-- Why a session may admit its peer. -/
inductive Reason (first : Station) (before : List Happening) (s : Station) (id : SessionId)
    (w : Wire) : Opening → Prop where
  | trusted {f : Fingerprint} {how : Opening} : w.theirs = some f → s.registry.trusts f = true →
      Reason first before s id w how
  | allowed {how : Opening} : .answers id true ∈ before → Reason first before s id w how
  | named (d : Device) : Reason first before s id w (.asked d)
  | offered {d : Device} : Offered first before d → Reason first before s id w (.dialed d)

/-- The session on a connection admitted its peer in a run, and had a reason to. -/
def Justified (first : Station) (hs : List Happening) (id : SessionId) (w : Wire) : Prop :=
  ∃ how before s, Admission first hs id w how before s ∧ Reason first before s id w how

theorem Offered.snoc {d : Device} (hd : Offered first hs d) (h : Happening) :
    Offered first (hs ++ [h]) d :=
  ⟨hd.1, hd.2.1, List.mem_append_left _ hd.2.2⟩

theorem Justified.snoc {id : SessionId} {w : Wire} (hw : Justified first hs id w) (h : Happening) :
    Justified first (hs ++ [h]) id w := by
  obtain ⟨how, before, s, ⟨⟨n, after, rfl, hadmits⟩, hrun, hopened⟩, hreason⟩ := hw
  exact ⟨how, before, s, ⟨⟨n, after ++ [h], by simp, hadmits⟩, hrun, hopened⟩, hreason⟩

/-! ## The invariant -/

/-- What a session believes of its connection is so, and an answer that it has was given. -/
structure Faithful (hs : List Happening) (id : SessionId) (l : Line) (t : SessionTask) : Prop where
  session : ∀ x, t.stage = .running x →
    x.peerFingerprint = l.wire.theirs ∧ (x.direction = .outbound → l.opening ≠ .accepted)
  answer : t.answer = some true → .answers id true ∈ hs

/-- A connection was opened as the line says, and what runs on it knows no better. -/
structure Backed (first : Station) (hs : List Happening) (id : SessionId) (l : Line) : Prop where
  opened : ∃ conn, .opens id l.wire conn l.opening ∈ hs
  offered : ∀ d, l.opening = .dialed d → Offered first hs d
  task : ∀ t, l.task = some t → Faithful hs id l t

/-- What a command says happened. -/
def Grounded (first : Station) (hs : List Happening) (s : Station) : Node.Command → Prop
  | .connected a _ => ∃ l, s.lines.get? a.id = some l ∧ l.opening ≠ .accepted
  | .discovery e => .discovers e ∈ hs
  | .report id .authenticated => ∃ w, Justified first hs id w
  | _ => True

/-- Everything that a station holds came about in the course of the run. -/
structure Sound (first : Station) (hs : List Happening) (s : Station) : Prop where
  node : Node.SameNode first.node s.node
  discovered : ∀ k d, s.node.group.discovered.get? k = some d → .discovers (.added d) ∈ hs
  dials : ∀ d ∈ s.dials, Offered first hs d
  queue : ∀ c ∈ s.queue, Grounded first hs s c
  lines : ∀ id l, s.lines.get? id = some l → Backed first hs id l
  members : ∀ id, s.node.group.IsMember id → ∃ w, Justified first hs id w
  registry : ∀ f ∈ s.registry.fingerprints, f ∈ first.registry.fingerprints ∨
    ∃ id w, w.theirs = some f ∧ Justified first hs id w

theorem sound_start {c : Config} {me : LocalIdentity} {port : UInt16}
    {machine : List Net.IpAddress} {registry : Registry}
    (hstart : start c me port machine registry = .ok first) : Sound first [] first := by
  obtain ⟨-, rfl⟩ := start_spec hstart
  exact
    { node := ⟨rfl, rfl, rfl, rfl⟩
      discovered := fun k d hd => by cases hd
      dials := fun d hd => by cases hd
      queue := fun c hc => by cases hc
      lines := fun id l hl => by cases hl
      members := by
        rintro id ⟨e, he, -⟩
        cases he
      registry := fun f hf => .inl hf }

/-! ## An admission has a reason -/

/-- A session that admits its peer has a reason to. -/
theorem justified_of_move (hrun : Run first hs s) {id : SessionId} {l : Line} {n : Nat}
    {m : SessionTask.Moved} (hbacked : Backed first hs id l) (hl : s.lines.get? id = some l)
    (hm : l.move? s.config s.now s.registry.trusts (.session n) = some m)
    (hauth : .report .authenticated ∈ m.notes) :
    Justified first (hs ++ [.moves id (.session n)]) id l.wire := by
  have hadmission : Admission first (hs ++ [.moves id (.session n)]) id l.wire l.opening hs s :=
    ⟨⟨n, [], rfl, l, m, hl, hm, hauth⟩, hrun, hbacked.opened⟩
  refine ⟨l.opening, hs, s, hadmission, ?_⟩
  obtain ⟨t, ht, -, ⟨-, x, i, hdrives⟩ | hplain⟩ := Line.move_spec hm
  · have hfaithful := hbacked.task t ht
    obtain ⟨a, ha, hnote⟩ := (hdrives.notes _).1 hauth
    have hadmits : .authenticated ∈
        (x.step ⟨s.now, t.outbox.room, s.registry.trusts⟩ i).actions := by
      cases a <;> first | exact ha | cases hnote
    obtain hgrant | rfl := Session.consent_of_authenticated hadmits
    · obtain ⟨hpeer, hdirection⟩ := hfaithful.session x hdrives.stage
      simp only [Session.admittedWithoutAsking, hpeer, Bool.or_eq_true, beq_iff_eq,
        Option.any_eq_true] at hgrant
      obtain hout | ⟨f, hf, htrusts⟩ := hgrant
      -- Nobody but the user and discovery makes a session outbound.
      · cases hopening : l.opening with
        | accepted => exact absurd hopening (hdirection hout)
        | asked d => exact .named d
        | dialed d => exact .offered (hbacked.offered d hopening)
      · exact .trusted hf htrusts
    · exact .allowed (hfaithful.answer (hdrives.decided true rfl))
  · obtain ⟨seq, heq⟩ | ⟨reason, heq⟩ := hplain _ hauth <;> cases heq

/-- A certificate that a session remembers is the one of the peer that it admits. -/
theorem admits_of_remembers {id : SessionId} {l : Line} {part : Part} {m : SessionTask.Moved}
    {f : Fingerprint} (hbacked : Backed first hs id l)
    (hm : l.move? s.config s.now s.registry.trusts part = some m) (hf : .remembers f ∈ m.notes) :
    (∃ n, part = .session n) ∧ .report .authenticated ∈ m.notes ∧ l.wire.theirs = some f := by
  obtain ⟨t, ht, -, ⟨hpart, x, i, hdrives⟩ | hplain⟩ := Line.move_spec hm
  · obtain ⟨hadmits, hpeer⟩ := Session.admits_of_remember ((hdrives.remembers f).1 hf)
    refine ⟨hpart, (hdrives.notes _).2 ⟨_, hadmits, rfl⟩, ?_⟩
    rw [← ((hbacked.task t ht).session x hdrives.stage).1, hpeer]
  · obtain ⟨seq, heq⟩ | ⟨reason, heq⟩ := hplain _ hf <;> cases heq

/-- Only the session itself tells of an admission. -/
theorem session_of_authenticated {l : Line} {part : Part} {m : SessionTask.Moved}
    (hm : l.move? s.config s.now s.registry.trusts part = some m)
    (hauth : .report .authenticated ∈ m.notes) : ∃ n, part = .session n := by
  obtain ⟨t, ht, -, ⟨hpart, -⟩ | hplain⟩ := Line.move_spec hm
  · exact hpart
  · obtain ⟨seq, heq⟩ | ⟨reason, heq⟩ := hplain _ hauth <;> cases heq

/-! ## A step -/

theorem Faithful.snoc {id : SessionId} {l : Line} {t : SessionTask} (ht : Faithful hs id l t)
    (h : Happening) : Faithful (hs ++ [h]) id l t :=
  ⟨ht.session, fun hanswer => List.mem_append_left _ (ht.answer hanswer)⟩

theorem Backed.snoc {id : SessionId} {l : Line} (hl : Backed first hs id l) (h : Happening) :
    Backed first (hs ++ [h]) id l where
  opened := hl.opened.imp fun _ hopens => List.mem_append_left _ hopens
  offered d hd := (hl.offered d hd).snoc h
  task t ht := (hl.task t ht).snoc h

/-- What changes nothing but the task of a line is judged by the task. -/
theorem Backed.withTask {id : SessionId} {l l' : Line} (hl : Backed first hs id l)
    (hwire : l'.wire = l.wire) (hopening : l'.opening = l.opening)
    (htask : ∀ t, l'.task = some t → Faithful hs id l t) : Backed first hs id l' where
  opened := by rw [hwire, hopening]; exact hl.opened
  offered := by rw [hopening]; exact hl.offered
  task t ht := by
    have hfaithful := htask t ht
    exact ⟨by rw [hwire, hopening]; exact hfaithful.session, hfaithful.answer⟩

theorem Backed.onTask {id : SessionId} {l : Line} (hl : Backed first hs id l)
    {f : SessionTask → SessionTask} (hf : ∀ t, Faithful hs id l t → Faithful hs id l (f t)) :
    Backed first hs id (l.onTask f) := by
  refine hl.withTask rfl rfl fun t' ht' => ?_
  obtain ⟨t, ht, rfl⟩ := Option.map_eq_some_iff.1 ht'
  exact hf t (hl.task t ht)

theorem faithful_kick {id : SessionId} {l : Line} {t : SessionTask} (ht : Faithful hs id l t) :
    Faithful hs id l t.kick := by
  unfold SessionTask.kick
  split
  · exact ⟨ht.session, ht.answer⟩
  · exact ht

/-- A line that was backed is backed after whatever a step makes of it. -/
theorem Backed.changed (hsound : Sound first hs s) {id : SessionId} {l l' : Line}
    (hl : s.lines.get? id = some l) (hchanged : Changed s h id l l') :
    Backed first (hs ++ [h]) id l' := by
  have hbacked := (hsound.lines id l hl).snoc h
  -- Over the changes that one happening makes of the line, each of which keeps what backs it.
  induction hchanged with
  | same => exact hbacked
  | delivered _ _ _ _ ih => exact ih.onTask fun t ht => ⟨ht.session, ht.answer⟩
  | kicked _ ih => exact ih.onTask fun t ht => faithful_kick ht
  | @started l₁ nonce c rest direction hchanged hh hqueue hstarts ih =>
    refine ih.withTask rfl rfl fun t ht => ?_
    cases ht
    have hstart := (SessionTask.starts_of_start s.config.sessionSettings direction l₁.wire.mine
      l₁.wire.theirs s.config.outboxCapacity s.now nonce).2
    refine ⟨fun x hx => ?_, fun hanswer => ?_⟩
    -- A session is outbound if the node was told that it connected, and then the line says so too.
    · obtain ⟨hdirection, hpeer⟩ := hstart.running x hx
      refine ⟨hpeer, fun hout => ?_⟩
      obtain ⟨a, rfl, -, hin⟩ | ⟨a, d, rfl, rfl, -⟩ := Node.start_of_handle hstarts
      · rw [hdirection, hin] at hout
        cases hout
      · obtain ⟨l₂, hl₂, hne⟩ := hsound.queue (.connected a d) (by rw [hqueue]; simp)
        rw [hl] at hl₂
        cases hl₂
        rw [hchanged.keeps.2]
        exact hne
    · rw [hstart.answer] at hanswer
      cases hanswer
  | moved _ hm =>
    refine hbacked.withTask rfl rfl fun t' ht' => ?_
    cases ht'
    obtain ⟨t, ht, hmoves, -⟩ := Line.move_spec hm
    have hfaithful := hbacked.task t ht
    refine ⟨fun y hy => ?_, fun hanswer => ?_⟩
    · obtain ⟨x, hx, hdirection, hpeer⟩ := hmoves.session y hy
      rw [hdirection, hpeer]
      exact hfaithful.session x hx
    · obtain hsame | hnone := hmoves.answer
      · exact hfaithful.answer (hsame ▸ hanswer)
      · rw [hnone] at hanswer
        cases hanswer
  | answered hh =>
    refine hbacked.onTask fun t ht => ⟨ht.session, fun hanswer => ?_⟩
    cases hanswer
    rw [hh]
    exact List.mem_append_right _ (List.mem_singleton_self _)
  | changed conn => exact hbacked.withTask rfl rfl hbacked.task

theorem Grounded.snoc (hstep : Step s h s') {c : Node.Command} (hc : Grounded first hs s c) :
    Grounded first (hs ++ [h]) s' c := by
  cases c with
  | connected a d =>
    obtain ⟨l, hl, hne⟩ := hc
    obtain ⟨l', hl', -, hsame⟩ := line_stays hstep hl
    exact ⟨l', hl', hsame ▸ hne⟩
  | discovery e => exact List.mem_append_left _ hc
  | report id r =>
    cases r with
    | authenticated => exact hc.imp fun w hw => hw.snoc h
    | update _ _ | flushed _ | closed _ => trivial
  | accepted _ | dialFailed _ _ | publish _ _ | shutdown _ => trivial

/-- What the node is told by a step happened. -/
theorem grounded_of_tells (hrun : Run first hs s) (hsound : Sound first hs s) (hstep : Step s h s')
    {c : Node.Command} (hc : Tells s h c) : Grounded first (hs ++ [h]) s' c := by
  cases hc with
  | @opens id w conn how =>
    have hl : s'.lines.get? id = some { wire := w, opening := how, connection := conn } := by
      cases hstep with
      | opens w conn hfresh hdials => simp [opened, tell, Table.get?_put]
    cases how with
    | accepted => trivial
    | asked d => exact ⟨_, hl, by simp⟩
    | dialed d => exact ⟨_, hl, by simp⟩
  | discovers => exact List.mem_append_right _ (List.mem_singleton_self _)
  | @moves id part l m r hl hm hr =>
    cases r with
    | authenticated =>
      obtain ⟨n, rfl⟩ := session_of_authenticated hm hr
      exact ⟨l.wire, justified_of_move hrun (hsound.lines id l hl) hl hm hr⟩
    | update _ _ | flushed _ | closed _ => trivial
  | dialFails | publishes | stops => trivial

theorem Sound.step (hrun : Run first hs s) (hsound : Sound first hs s) (hstep : Step s h s') :
    Sound first (hs ++ [h]) s' where
  node := by
    obtain hsame | ⟨c, -, hnode⟩ := node_next hstep
    · rw [hsame]
      exact hsound.node
    · rw [hnode]
      exact hsound.node.trans (Node.sameNode_handle s.node s.room c)
  discovered k d hd := by
    refine List.mem_append_left _ ?_
    obtain hsame | ⟨c, hc, hnode⟩ := node_next hstep
    · exact hsound.discovered k d (hsame ▸ hd)
    · rw [hnode] at hd
      obtain hold | rfl := Node.discovered_handle hd
      · exact hsound.discovered k d hold
      · exact hsound.queue _ hc.mem
  dials d hd := by
    -- A dial comes from a command that names a discovered device or follows the end of a member.
    obtain hold | ⟨c, delay, hc, hdial⟩ := dials_next hstep hd
    · exact (hsound.dials d hold).snoc h
    · obtain ⟨hauto, hfirst, hworth⟩ := Node.dial_of_handle hdial
      rw [hsound.node.autoConnect] at hauto
      rw [hsound.node.identity, hsound.node.port] at hfirst
      refine Offered.snoc ⟨hauto, hfirst, ?_⟩ h
      obtain rfl | ⟨k, hk⟩ := hworth
      · exact hsound.queue _ hc.mem
      · exact hsound.discovered k d hk
  queue c hc := by
    obtain hold | hnew := queue_next hstep hc
    · exact (hsound.queue c hold).snoc hstep
    · exact grounded_of_tells hrun hsound hstep hnew
  lines id l hl := by
    obtain ⟨l₁, hl₁, hchanged⟩ | ⟨w, conn, how, rfl, rfl⟩ := line_was hstep hl
    · exact Backed.changed hsound hl₁ hchanged
    · refine ⟨⟨conn, List.mem_append_right _ (List.mem_singleton_self _)⟩, ?_,
        fun t ht => by cases ht⟩
      rintro d rfl
      cases hstep with
      | opens _ _ hfresh hdials => exact (hsound.dials d (hdials d rfl)).snoc _
  members id hid := by
    obtain hsame | ⟨c, hc, hnode⟩ := node_next hstep
    · exact (hsound.members id (hsame ▸ hid)).imp fun w hw => hw.snoc h
    · rw [hnode] at hid
      obtain hold | rfl := Node.isMember_handle hid
      · exact (hsound.members id hold).imp fun w hw => hw.snoc h
      · obtain ⟨w, hw⟩ := hsound.queue _ hc.mem
        exact ⟨w, hw.snoc h⟩
  registry f hf := by
    obtain hold | ⟨id, part, l, m, rfl, hl, hm, hremembers⟩ := registry_next hstep hf
    · exact (hsound.registry f hold).imp_right fun ⟨id, w, hw, hjust⟩ => ⟨id, w, hw, hjust.snoc h⟩
    · have hbacked := hsound.lines id l hl
      obtain ⟨⟨n, rfl⟩, hauth, htheirs⟩ := admits_of_remembers hbacked hm hremembers
      exact .inr ⟨id, l.wire, htheirs, justified_of_move hrun hbacked hl hm hauth⟩

theorem sound_run {c : Config} {me : LocalIdentity} {port : UInt16}
    {machine : List Net.IpAddress} {registry : Registry}
    (hstart : start c me port machine registry = .ok first) (hrun : Run first hs s) :
    Sound first hs s := by
  induction hrun with
  | start => exact sound_start hstart
  | step hrun hstep ih => exact ih.step hrun hstep

/-! ## Who joins -/

/-- Somebody consents: the registry trusts the certificate that the peer presents at the moment, or
the user has answered that this peer may join. -/
def Consented (s : Station) (before : List Happening) (id : SessionId) (w : Wire) : Prop :=
  (∃ f, w.theirs = some f ∧ s.registry.trusts f = true) ∨ .answers id true ∈ before

/-- Unless the user names a device, a peer is admitted with consent or because it was dialed when
discovery reported it. -/
theorem Justified.reason {id : SessionId} {w : Wire} (hw : Justified first hs id w)
    (hno : ∀ id w conn d, .opens id w conn (.asked d) ∉ hs) :
    ∃ how before s, Admission first hs id w how before s ∧
      (Consented s before id w ∨ ∃ d, how = .dialed d ∧ Offered first before d) := by
  obtain ⟨how, before, s, hadmission, hreason⟩ := hw
  refine ⟨how, before, s, hadmission, ?_⟩
  cases hreason with
  | trusted hf htrusts => exact .inl (.inl ⟨_, hf, htrusts⟩)
  | allowed hanswer => exact .inl (.inr hanswer)
  | offered hd => exact .inr ⟨_, rfl, hd⟩
  | named d =>
    obtain ⟨⟨n, after, rfl, -⟩, -, conn, hopens⟩ := hadmission
    exact absurd (List.mem_append_left _ hopens) (hno id w conn d)

/-- **Consent.** Let a node start, and let anything happen in which the user names no device to
connect to: discovery reports, connections that come in or are dialed, and whatever peers send on
them. Then every member was admitted by a step of its session, and every certificate that the
registry did not hold at the start is the one that a peer presented on a connection on which it was
admitted so; and at that step the registry trusted the certificate or the user had answered that
this peer may join, or else the node had dialed the peer itself because discovery reported it. -/
theorem admitted_by_trust_consent_or_discovery {c : Config} {me : LocalIdentity} {port : UInt16}
    {machine : List Net.IpAddress} {registry : Registry} {first s : Station}
    {hs : List Happening} (hstart : start c me port machine registry = .ok first)
    (hrun : Run first hs s) (hno : ∀ id w conn d, .opens id w conn (.asked d) ∉ hs) :
    (∀ id, s.node.group.IsMember id → ∃ w how before s₁,
      Admission first hs id w how before s₁ ∧
        (Consented s₁ before id w ∨ ∃ d, how = .dialed d ∧ Offered first before d)) ∧
    ∀ f ∈ s.registry.fingerprints, f ∈ registry.fingerprints ∨ ∃ id w how before s₁,
      w.theirs = some f ∧ Admission first hs id w how before s₁ ∧
        (Consented s₁ before id w ∨ ∃ d, how = .dialed d ∧ Offered first before d) := by
  have hsound := sound_run hstart hrun
  refine ⟨fun id hid => ?_, fun f hf => ?_⟩
  · obtain ⟨w, hw⟩ := hsound.members id hid
    exact ⟨w, hw.reason hno⟩
  · obtain hold | ⟨id, w, htheirs, hw⟩ := hsound.registry f hf
    · rw [(start_spec hstart).2] at hold
      exact .inl hold
    · obtain ⟨how, before, s₁, hadmission, hreason⟩ := hw.reason hno
      exact .inr ⟨id, w, how, before, s₁, htheirs, hadmission, hreason⟩

/-! ## A device that advertises itself -/

/-- A device that nobody knows. -/
def zeta : Device := { address := .v4 0xC000020A, port := 17394, name := "zeta" }

def zetaCertificate : Fingerprint := ⟨"zeta-cert"⟩

/-- A node that has just started and trusts nobody. -/
def lonely : Station :=
  { config := .default "/home/user"
    node := .fresh (.default "/home/user") { name := "alpha" } 17394
    registry := {} }

def lonelyNonce : Bytes := List.replicate 32 7

/-- A connection on which the peer has sent some bytes. -/
def heard (b : Bytes) : Connection :=
  { incoming := { capacity := 64, buffer := b }, outgoing := { capacity := 64 } }

/-- The device is discovered, the node dials it, and the device answers the challenge. -/
def intrusion : List Happening :=
  [.discovers (.added zeta), .handles [],
    .opens 0 { peer := zeta.socketAddress, theirs := some zetaCertificate } (heard [])
      (.dialed zeta),
    .handles lonelyNonce,
    .changes 0 (heard
      (Packet.challengeResponse (Challenge.answer lonelyNonce (some zetaCertificate))).encode),
    .moves 0 .reader, .moves 0 (.session 0), .handles []]

theorem run_intrusion : ∃ s, Run lonely intrusion s ∧ s.node.group.IsMember 0 ∧
    s.registry.fingerprints = [zetaCertificate] := by
  have hplay : ((lonely.play? intrusion).any fun s =>
      (s.node.group.sessions.get? 0).any (·.role = .authenticated) &&
        s.registry.fingerprints = [zetaCertificate]) = true := by decide +kernel
  obtain ⟨s, hs, hend⟩ := Option.any_eq_true _ _ |>.1 hplay
  rw [Bool.and_eq_true, Option.any_eq_true] at hend
  obtain ⟨⟨e, he, hrole⟩, hregistry⟩ := hend
  exact ⟨s, run_of_play hs, ⟨e, he, of_decide_eq_true hrole⟩, of_decide_eq_true hregistry⟩

/-- The device is admitted because it was dialed when discovery reported it. -/
theorem admitted_by_discovery_zeta :
    start (.default "/home/user") { name := "alpha" } 17394 [] {} = .ok lonely ∧
      ∃ s, Run lonely intrusion s ∧ (∀ id w conn d, .opens id w conn (.asked d) ∉ intrusion) ∧
        ∃ w how before s₁, Admission lonely intrusion 0 w how before s₁ ∧
          (Consented s₁ before 0 w ∨ ∃ d, how = .dialed d ∧ Offered lonely before d) := by
  have hstart : start (.default "/home/user") { name := "alpha" } 17394 [] {} = .ok lonely := rfl
  obtain ⟨s, hrun, hmember, -⟩ := run_intrusion
  have hno : ∀ id w conn d, .opens id w conn (.asked d) ∉ intrusion := by simp [intrusion]
  exact ⟨hstart, s, hrun, hno,
    (admitted_by_trust_consent_or_discovery hstart hrun hno).1 0 hmember⟩

/-- Without consent: the registry is empty at the start, the user names no device and answers no
question, and the device becomes a member and its certificate a trusted one. -/
theorem advertised_device_is_admitted :
    lonely.registry.fingerprints = [] ∧
      (∀ id w conn d, .opens id w conn (.asked d) ∉ intrusion) ∧
      (∀ id allow, .answers id allow ∉ intrusion) ∧
      ∃ s, Run lonely intrusion s ∧ s.node.group.IsMember 0 ∧
        s.registry.fingerprints = [zetaCertificate] :=
  ⟨rfl, by simp [intrusion], by simp [intrusion], run_intrusion⟩

end SharedClipboard.Station
