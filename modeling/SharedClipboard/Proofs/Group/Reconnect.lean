import SharedClipboard.Proofs.Group.Membership
import Mathlib.Data.List.Find
import Mathlib.Tactic.ByContra

/-!
# Reconnecting with a certificate

**Theorem (`certificate_replaces_sessions_of_its_device`).** An inbound session that becomes a
member replaces the session of the device that it is resolved to, and no other. So no other session
that presented its certificate stays a member if and only if all of them were sessions of that
device. In particular none stays if the records of the group show the certificate as one of a single
device and the sessions that presented it are sessions of this device.

The records need not show it (`stale_record_keeps_session`). A device that has become a member with
another certificate in the meantime keeps its first record, so once discovery does not report it any
more its new certificate is found nowhere. The machine that comes back with the certificate is taken
for another one, and its earlier session stays beside the new one.

The order in which the tables are walked decides only between devices that share a certificate
(`resolveInbound_eq_of_perm`).
-/

namespace SharedClipboard.Group

/-- What the group has on record about devices: discovered ones come before members. -/
def records (g : Group) : List Device := g.discovered.values ++ g.members.values.map (·.device)

/-- A record of the group shows the certificate as one of the device. -/
def Shows (g : Group) (f : Fingerprint) (k : Device.Identity) : Prop :=
  ∃ d ∈ g.records, d.fingerprint = some f ∧ d.identity = k

/-- The session is a member session whose connection presented the certificate. -/
def Presented (g : Group) (f : Fingerprint) (id : SessionId) (s : SessionEntry) : Prop :=
  g.sessions.get? id = some s ∧ s.role = .authenticated ∧ s.peerFingerprint = some f

variable {g : Group} {id j : SessionId} {e s : SessionEntry} {f : Fingerprint}

/-- A certificate that a record shows is resolved to a device that a record shows it for. -/
theorem Shows.resolveInbound {k : Device.Identity} (h : g.Shows f k) (a : Net.SocketAddress) :
    g.Shows f (g.resolveInbound a (some f)).identity := by
  obtain ⟨d, hd, hf, -⟩ := h
  have hsome : (g.deviceWithFingerprint? f).isSome = true :=
    List.find?_isSome.2 ⟨d, hd, decide_eq_true hf⟩
  obtain ⟨d', hd'⟩ := Option.isSome_iff_exists.1 hsome
  have hresolved : g.resolveInbound a (some f) = d' := by
    simp [Group.resolveInbound, hd']
  rw [hresolved]
  exact ⟨d', List.mem_of_find?_eq_some hd', of_decide_eq_true (List.find?_some hd' :), rfl⟩

/-- Of the members, the session of the device that a session becomes a member of is replaced, and
all others stay. -/
theorem InStep.promote_keeps_iff (h : g.InStep) (he : g.sessions.get? id = some e)
    (hrole : e.role = .unauthenticated) (hj : j ≠ id) :
    (g.promote id).group.sessions.get? j = some s ∧ s.role = .authenticated ↔
      (g.sessions.get? j = some s ∧ s.role = .authenticated) ∧
        ¬ s.device.same (g.promoted e).device := by
  obtain ⟨-, hauth⟩ | ⟨e', he', -, -, hsessions, -⟩ := promote_cases g id
  · have hcontra := hauth e he
    rw [hrole] at hcontra
    cases hcontra
  · rw [he] at he'
    cases he'
    rw [hsessions, if_neg hj.symm, Device.same_iff]
    -- Members and sessions are in step, so only the member session of the device goes.
    by_cases hmember : g.memberSession? (g.promoted e).device.identity = some j
    · obtain ⟨s', hs', -, hdevice⟩ := (h _ j).1 hmember
      rw [if_pos hmember, hs']
      constructor
      · rintro ⟨hnone, -⟩
        cases hnone
      · rintro ⟨⟨hsame, -⟩, hother⟩
        cases hsame
        exact absurd hdevice hother
    · rw [if_neg hmember]
      refine ⟨fun hs => ⟨hs, fun hdevice => hmember ((h _ j).2 ⟨s, hs.1, hs.2, hdevice⟩)⟩,
        fun hs => hs.1⟩

theorem promoted_of_inbound (g : Group) (hdirection : e.direction = .inbound) :
    (g.promoted e).device = g.resolveInbound e.peer e.peerFingerprint := by
  simp [promoted, hdirection]

theorem unauthenticated_of_promote (he : g.sessions.get? id = some e)
    (hp : (g.promote id).answer = true) : e.role = .unauthenticated := by
  obtain ⟨hsame, -⟩ | ⟨e', he', hrole, -⟩ := promote_cases g id
  · rw [hsame] at hp
    cases hp
  · rw [he] at he'
    cases he'
    exact hrole

/-- **Reconnecting with a certificate.** In every reachable group, when an inbound session becomes a
member:

* of the sessions that were members, exactly those of the device that it is resolved to are gone;
* no other member session presented its certificate if and only if those that did were sessions of
  that device;
* that is so if all records that show the certificate are of one device, and every member session
  that presented it is of a device for which a record shows it. -/
theorem certificate_replaces_sessions_of_its_device {limit : Nat} (h : Reachable limit g)
    (he : g.sessions.get? id = some e) (hdirection : e.direction = .inbound)
    (hf : e.peerFingerprint = some f) (hp : (g.promote id).answer = true) :
    (∀ j s, j ≠ id → ((g.promote id).group.sessions.get? j = some s ∧ s.role = .authenticated ↔
      (g.sessions.get? j = some s ∧ s.role = .authenticated) ∧
        ¬ s.device.same (g.resolveInbound e.peer (some f)))) ∧
    ((∀ j s, (g.promote id).group.Presented f j s → j = id) ↔
      ∀ j s, g.Presented f j s → s.device.same (g.resolveInbound e.peer (some f))) ∧
    ((∀ k k', g.Shows f k → g.Shows f k' → k = k') →
      (∀ j s, g.Presented f j s → g.Shows f s.device.identity) →
      ∀ j s, (g.promote id).group.Presented f j s → j = id) := by
  have hrole := unauthenticated_of_promote he hp
  have hkeeps : ∀ j s, j ≠ id →
      ((g.promote id).group.sessions.get? j = some s ∧ s.role = .authenticated ↔
        (g.sessions.get? j = some s ∧ s.role = .authenticated) ∧
          ¬ s.device.same (g.resolveInbound e.peer (some f))) := by
    intro j s hj
    rw [← hf, ← promoted_of_inbound g hdirection]
    exact h.inStep.promote_keeps_iff he hrole hj
  have halone : (∀ j s, (g.promote id).group.Presented f j s → j = id) ↔
      ∀ j s, g.Presented f j s → s.device.same (g.resolveInbound e.peer (some f)) := by
    refine ⟨fun hafter j s hs => ?_, fun hbefore j s hs => ?_⟩
    -- A session that presented the certificate and stays would be alone with it, but is not `id`.
    · obtain ⟨hs, hauth, hsf⟩ := hs
      have hj : j ≠ id := by
        rintro rfl
        rw [he] at hs
        cases hs
        rw [hrole] at hauth
        cases hauth
      by_contra hother
      obtain ⟨hstays, -⟩ := (hkeeps j s hj).2 ⟨⟨hs, hauth⟩, hother⟩
      exact hj (hafter j s ⟨hstays, hauth, hsf⟩)
    · obtain ⟨hs, hauth, hsf⟩ := hs
      by_contra hj
      obtain ⟨⟨hold, -⟩, hother⟩ := (hkeeps j s hj).1 ⟨hs, hauth⟩
      exact hother (hbefore j s ⟨hold, hauth, hsf⟩)
  refine ⟨hkeeps, halone, fun hone hshown => halone.2 fun j s hs => ?_⟩
  have hshows := hshown j s hs
  exact Device.same_iff.2 (hone _ _ hshows (hshows.resolveInbound e.peer))

/-! ## The order of the tables -/

/-- Where at most one discovered device and at most one member bear a certificate, an inbound
connection that presents it comes from the same device in whatever order the tables are walked. -/
theorem resolveInbound_eq_of_perm {g' : Group}
    (hfound : g.discovered.values.Perm g'.discovered.values)
    (hjoined : (g.members.values.map Member.device).Perm (g'.members.values.map Member.device))
    (honeFound : {d ∈ g.discovered.values | d.fingerprint = some f}.Subsingleton)
    (honeJoined : {d ∈ g.members.values.map Member.device | d.fingerprint = some f}.Subsingleton)
    (a : Net.SocketAddress) : g.resolveInbound a (some f) = g'.resolveInbound a (some f) := by
  have hdevice : g.deviceWithFingerprint? f = g'.deviceWithFingerprint? f := by
    unfold deviceWithFingerprint?
    rw [List.find?_append, List.find?_append,
      List.find?_eq_find?_of_perm hfound (by simpa using honeFound),
      List.find?_eq_find?_of_perm hjoined (by simpa using honeJoined)]
  -- A device is taken by its address only if it is the one there, so the order does not matter.
  have haddress : g.onlyDeviceAt? a.ip = g'.onlyDeviceAt? a.ip := by
    have hperm := hfound.filter (·.address = a.ip)
    unfold onlyDeviceAt?
    generalize g.discovered.values.filter (·.address = a.ip) = ds at hperm
    generalize g'.discovered.values.filter (·.address = a.ip) = ds' at hperm
    match ds, ds', hperm with
    | [], ds', hperm => rw [hperm.nil_eq]
    | [d], ds', hperm => rw [List.perm_singleton.1 hperm.symm]
    | d :: d₂ :: ds, [], hperm => cases hperm.length_eq
    | d :: d₂ :: ds, [d'], hperm => cases hperm.length_eq
    | d :: d₂ :: ds, d' :: d₂' :: ds', hperm => rfl
  simp only [Group.resolveInbound, Option.bind_some, hdevice, haddress]

/-! ## A machine that comes back -/

/-- A connection comes in from a port of a machine that presents a certificate. -/
def arrive (g : Group) (id : SessionId) (port : UInt16) (f : Fingerprint) : Group :=
  let a : Net.SocketAddress := { ip := .v4 0xC000020A, port }
  g.attach id
    { device := g.resolveInbound a (some f), peer := a, peerFingerprint := some f
      direction := .inbound }

/-- The machine has joined from one port and comes back from another. -/
def returning : Group :=
  let first := (((fresh 10).arrive 1 50001 ⟨"certificate"⟩).promote 1).group
  first.arrive 2 50002 ⟨"certificate"⟩

theorem reachable_returning : Reachable 10 returning :=
  ((Reachable.attach .fresh rfl rfl).promote 1).attach rfl rfl

/-- Discovery has not reported the machine, and its second session replaces the first. -/
theorem certificate_replaces_returning : Reachable 10 returning ∧
    (returning.promote 2).answer = true ∧
    (∃ s, returning.Presented ⟨"certificate"⟩ 1 s) ∧
    ∀ s, ¬ (returning.promote 2).group.Presented ⟨"certificate"⟩ 1 s := by
  have hp : (returning.promote 2).answer = true := by decide +kernel
  have hone : ∀ d ∈ returning.records, ∀ d' ∈ returning.records,
      d.identity = d'.identity := by decide +kernel
  have hshown : ∀ x ∈ returning.sessions.entries, x.2.role = .authenticated →
      ∃ d ∈ returning.records, d.fingerprint = some ⟨"certificate"⟩ ∧
        d.identity = x.2.device.identity := by decide +kernel
  obtain ⟨e, he, hdirection, hf⟩ : ∃ e, returning.sessions.get? 2 = some e ∧
      e.direction = .inbound ∧ e.peerFingerprint = some ⟨"certificate"⟩ := ⟨_, rfl, rfl, rfl⟩
  obtain ⟨-, -, halone⟩ := certificate_replaces_sessions_of_its_device reachable_returning he
    hdirection hf hp
  refine ⟨reachable_returning, hp, ⟨_, rfl, rfl, rfl⟩, fun s hs => ?_⟩
  have h12 := halone ?_ ?_ 1 s hs
  · cases h12
  · rintro k k' ⟨d, hd, -, rfl⟩ ⟨d', hd', -, rfl⟩
    exact hone d hd d' hd'
  · rintro j s ⟨hs, hauth, -⟩
    exact hshown (j, s) (Table.mem_entries_iff.2 hs) hauth

/-- What discovery reports about the machine while it has a certificate. -/
def reported (f : Fingerprint) : Device :=
  { address := .v4 0xC000020A, port := 17394, name := "laptop", fingerprint := some f }

/-- Discovery reports the machine, to a node on another one. -/
def report (g : Group) (e : DiscoveryEvent) : Group :=
  (g.onDiscovery { name := "desk" } 17394 [] e).group

theorem Reachable.report {limit : Nat} (h : Reachable limit g) (d : DiscoveryEvent) :
    Reachable limit (g.report d) :=
  h.perform (fun _ => .free) (.discovery { name := "desk" } 17394 [] d)

/-- The machine is discovered and joins, gets a new certificate and joins again with it, and is lost
to discovery. Then it comes back once more. -/
def renewed : Group :=
  let found := (fresh 10).report (.added (reported ⟨"old"⟩))
  let joined := ((found.arrive 1 50001 ⟨"old"⟩).promote 1).group
  let refreshed := joined.report (.added (reported ⟨"new"⟩))
  let rejoined := ((refreshed.arrive 2 50002 ⟨"new"⟩).promote 2).group
  (rejoined.report (.removed (reported ⟨"new"⟩))).arrive 3 50003 ⟨"new"⟩

theorem reachable_renewed : Reachable 10 renewed :=
  have joined := ((Reachable.fresh.report (.added (reported ⟨"old"⟩))).attach rfl rfl).promote 1
  have rejoined := ((joined.report (.added (reported ⟨"new"⟩))).attach rfl rfl).promote 2
  (rejoined.report (.removed (reported ⟨"new"⟩))).attach rfl rfl

/-- **A stale record keeps a session.** The machine's member session presented the new certificate,
but the record of the member shows the old one. So the machine is taken for another device when it
comes back, and both sessions are members. -/
theorem stale_record_keeps_session : Reachable 10 renewed ∧
    (∃ e, renewed.sessions.get? 3 = some e ∧ e.direction = .inbound ∧
      e.peerFingerprint = some ⟨"new"⟩) ∧
    (renewed.promote 3).answer = true ∧
    ∃ s, (renewed.promote 3).group.Presented ⟨"new"⟩ 2 s := by
  have hp : (renewed.promote 3).answer = true := by decide +kernel
  exact ⟨reachable_renewed, ⟨_, rfl, rfl, rfl⟩, hp, _, rfl, rfl, rfl⟩

end SharedClipboard.Group
