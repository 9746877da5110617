import SharedClipboard.Proofs.Group.Listener
import SharedClipboard.Proofs.Group.Membership

/-!
# What is on record about a member

A member is on record as a device, and its member session is filed under a device. Both are the same
device but they may have different fingerprints.

**Theorem (`member_record_is_the_first_join`).** The record of a member is the device as which it
joined first since it was no member, and its member session is filed under the device as which it
joined last. So the record has the fingerprint of the session whenever the device has joined with
one and the same certificate all the time, and a certificate is found among the members if and only
if one of them joined with it first.

A device that joins once more with another certificate keeps its record
(`rejoined_record_is_stale`).

The events since the start of the group say how a device joined (`joins`), and `Recorded` is the
invariant that ties both tables of the group to them. It needs that members and sessions are in
step: when a device leaves, no session may stay that is filed under it.
-/

namespace SharedClipboard.Group

/-! ## Groups with their events -/

/-- The groups that operations lead to, with all that was announced on the way. -/
inductive Told (limit : Nat) : List Event → Group → Prop where
  | fresh : Told limit [] (.fresh limit)
  | attach {es : List Event} {g : Group} {id : SessionId} {e : SessionEntry} : Told limit es g →
      g.sessions.get? id = none → e.role = .unauthenticated → Told limit es (g.attach id e)
  | perform {es : List Event} {g : Group} (room : SessionId → Room) (op : Operation) :
      Told limit es g → Told limit (es ++ (g.perform room op).effects.filterMap Effect.event?)
        (g.perform room op).group

variable {limit : Nat} {es new : List Event} {g g' : Group} {id : SessionId} {e : SessionEntry}
  {k : Device.Identity} {d : Device}

theorem Told.reachable (h : Told limit es g) : Reachable limit g := by
  induction h with
  | fresh => exact .fresh
  | attach _ hnew hrole ih => exact ih.attach hnew hrole
  | perform room op _ ih => exact ih.perform room op

/-- Of every group that can be reached there are the events that were announced. -/
theorem Reachable.told (h : Reachable limit g) : ∃ es, Told limit es g := by
  induction h with
  | fresh => exact ⟨[], .fresh⟩
  | attach _ hnew hrole ih =>
    obtain ⟨es, hes⟩ := ih
    exact ⟨es, hes.attach hnew hrole⟩
  | perform room op _ ih =>
    obtain ⟨es, hes⟩ := ih
    exact ⟨_, hes.perform room op⟩

/-- How a device joined since it last was no member, after one more event. -/
def noteJoin (k : Device.Identity) (joined : List Device) : Event → List Device
  | .deviceJoined d => if d.identity = k then joined ++ [d] else joined
  | .deviceLeft d => if d.identity = k then [] else joined
  | .clipboardUpdated _ _ _ _ | .authenticationFailed _ _ | .deviceDiscovered _ | .deviceLost _
  | .discoveryDegraded _ => joined

/-- The devices as which a device joined since it last was no member, the first one first. -/
def joins (k : Device.Identity) (es : List Event) : List Device := es.foldl (noteJoin k) []

theorem joins_append : joins k (es ++ new) = new.foldl (noteJoin k) (joins k es) :=
  List.foldl_append

theorem joins_snoc (x : Event) : joins k (es ++ [x]) = noteJoin k (joins k es) x := joins_append

/-- Nobody joins or leaves. -/
def Quiet (new : List Event) : Prop := ∀ k joined, new.foldl (noteJoin k) joined = joined

/-- What is on record about the members and their sessions is how they joined. -/
structure Recorded (es : List Event) (g : Group) : Prop where
  record k : (g.members.get? k).map Member.device = (joins k es).head?
  session id e : g.sessions.get? id = some e → e.role = .authenticated →
    (joins e.device.identity es).getLast? = some e.device

theorem recorded_fresh (limit : Nat) : Recorded [] (fresh limit) where
  record k := rfl
  session id e he := by simp [fresh] at he

/-! ## One lemma per kind of change -/

/-- A change that keeps the members, and the role and the device of every session. -/
theorem Recorded.of_map (h : Recorded es g) (f : SessionId → SessionEntry → SessionEntry)
    (hrole : ∀ j e, (f j e).role = e.role) (hdevice : ∀ j e, (f j e).device = e.device)
    (hsessions : ∀ j, g'.sessions.get? j = (g.sessions.get? j).map (f j))
    (hmembers : g'.members = g.members) (hquiet : Quiet new) : Recorded (es ++ new) g' where
  record k := by rw [joins_append, hquiet, hmembers, h.record k]
  session id e he hauth := by
    rw [hsessions, Option.map_eq_some_iff] at he
    obtain ⟨e', he', rfl⟩ := he
    rw [hdevice, joins_append, hquiet]
    exact h.session id e' he' (hrole id e' ▸ hauth)

theorem Recorded.attach (h : Recorded es g) (hrole : e.role = .unauthenticated) :
    Recorded es (g.attach id e) where
  record := h.record
  session j e' he' hauth := by
    rw [get?_sessions_attach] at he'
    split at he'
    · cases he'
      rw [hrole] at hauth
      cases hauth
    · exact h.session j e' he' hauth

/-- A session that becomes a member joins as its device, and the record stays if there is one. -/
theorem promote_records (he : g.sessions.get? id = some e) (hrole : e.role = .unauthenticated) :
    (g.promote id).effects.filterMap Effect.event? = [.deviceJoined (g.promoted e).device] ∧
      ∀ k, ((g.promote id).group.members.get? k).map Member.device =
        if (g.promoted e).device.identity = k then
          some (((g.members.get? k).map Member.device).getD (g.promoted e).device)
        else (g.members.get? k).map Member.device := by
  cases hm : g.members.get? (g.promoted e).device.identity with
  | none =>
    refine ⟨by simp [promote, he, hrole, hm, Effect.event?], fun k => ?_⟩
    simp only [promote, he, hrole, hm, ne_eq, not_true_eq_false, if_false, Table.get?_put]
    split
    · rename_i hk
      simp [← hk, hm]
    · rfl
  | some old =>
    simp only [promote, he, hrole, hm, ne_eq, not_true_eq_false, if_false, List.filterMap_append,
      Table.get?_put]
    refine ⟨by split <;> simp [Effect.event?], fun k => ?_⟩
    split
    · rename_i hk
      simp [← hk, hm]
    · rfl

theorem Recorded.promote (h : Recorded es g) (hstep : g.InStep) (id : SessionId) :
    Recorded (es ++ (g.promote id).effects.filterMap Effect.event?) (g.promote id).group := by
  have hstep' := hstep.promote id
  obtain ⟨hsame, -⟩ | ⟨e, he, hrole, -, hsessions, hmembers⟩ := promote_cases g id
  · rw [hsame]
    exact h.of_map (fun _ e => e) (fun _ _ => rfl) (fun _ _ => rfl) (by simp) rfl fun _ _ => rfl
  · obtain ⟨hevents, hrecords⟩ := promote_records he hrole
    rw [hevents]
    refine ⟨fun k => ?_, fun j e' he' hauth => ?_⟩
    · rw [hrecords, joins_snoc, noteJoin]
      split
      · rw [h.record k]
        cases joins k es <;> rfl
      · exact h.record k
    · rw [joins_snoc, noteJoin]
      split
      · -- The session that joins is the only one that is authenticated as this device.
        rename_i hk
        have hj : some id = some j := by
          rw [← (hstep' _ j).2 ⟨e', he', hauth, rfl⟩, hmembers, if_pos hk]
        cases hj
        rw [hsessions, if_neg (hstep.not_member he hrole _), if_pos rfl] at he'
        cases he'
        simp
      · rename_i hk
        rw [hsessions] at he'
        split at he'
        · cases he'
        · split at he'
          · cases he'
            exact absurd rfl hk
          · exact h.session j e' he' hauth

theorem Recorded.remove (h : Recorded es g) (hstep : g.InStep) (id : SessionId)
    (reason : CloseReason) :
    Recorded (es ++ (g.remove id reason).effects.filterMap Effect.event?)
      (g.remove id reason).group := by
  have hstep' := hstep.remove id reason
  have hstays : ∀ j e, (g.remove id reason).group.sessions.get? j = some e →
      g.sessions.get? j = some e := by
    intro j e he
    rw [get?_sessions_remove] at he
    split at he
    · cases he
    · exact he
  obtain ⟨-, ⟨d, -, hevents, hmembers⟩ | ⟨hmembers, hevents⟩⟩ := remove_leaves g id reason
  · rw [hevents]
    refine ⟨fun k => ?_, fun j e he hauth => ?_⟩
    · rw [joins_snoc, noteJoin, hmembers, Table.get?_erase]
      split
      · rfl
      · exact h.record k
    -- The session of the device that left would be its member session, which it has none any more.
    · have hne : d.identity ≠ e.device.identity := by
        intro hk
        have hmember := (hstep' _ j).2 ⟨e, he, hauth, rfl⟩
        rw [memberSession?, hmembers, Table.get?_erase, if_pos hk] at hmember
        cases hmember
      rw [joins_snoc, noteJoin, if_neg hne]
      exact h.session j e (hstays j e he) hauth
  -- A failed handshake is no news about who is a member.
  · have hquiet : Quiet ((g.remove id reason).effects.filterMap Effect.event?) := by
      obtain hnone | ⟨d, cause, hfailed⟩ := hevents
      · rw [hnone]
        exact fun _ _ => rfl
      · rw [hfailed]
        exact fun _ _ => rfl
    refine ⟨fun k => ?_, fun j e he hauth => ?_⟩
    · rw [joins_append, hquiet, hmembers]
      exact h.record k
    · rw [joins_append, hquiet]
      exact h.session j e (hstays j e he) hauth

theorem Recorded.kickEach (h : Recorded es g) (hstep : g.InStep) (ids : List SessionId) :
    Recorded (es ++ (g.kickEach ids).effects.filterMap Effect.event?) (g.kickEach ids).group := by
  induction ids generalizing es g with
  | nil => exact (List.append_nil es).symm ▸ h
  | cons id ids ih =>
    have hrest := ih (h.remove hstep id .kicked) (hstep.remove id .kicked)
    rw [List.append_assoc, ← List.filterMap_append] at hrest
    exact hrest

theorem Recorded.accept (h : Recorded es g) (room : SessionId → Room) (mime : String)
    (data : Bytes) (origin : Origin) (except? : Option SessionId) :
    Recorded (es ++ (g.accept room mime data origin except?).effects.filterMap Effect.event?)
      (g.accept room mime data origin except?).group := by
  rw [events_accept]
  refine h.of_map (fun j e => if j ∈ g.recipients room except? then
    { e with inFlight := some g.history.nextSeq } else e) ?_ ?_ (fun j => ?_) rfl fun _ _ => rfl
  · intro j e
    split <;> rfl
  · intro j e
    split <;> rfl
  · rw [get?_sessions_accept]
    split <;> simp

theorem Recorded.flushed (h : Recorded es g) (id : SessionId) (seq : Nat) :
    Recorded (es ++ []) (g.flushed id seq) := by
  refine h.of_map (fun j e => if id = j ∧ e.inFlight = some seq then
    { e with inFlight := none } else e) ?_ ?_ (fun j => ?_) rfl fun _ _ => rfl
  · intro j e
    split <;> rfl
  · intro j e
    split <;> rfl
  · rw [get?_sessions_flushed]
    by_cases hj : id = j <;> simp [hj]

/-! ## Every operation, every run -/

theorem recorded_perform (h : Recorded es g) (hstep : g.InStep) (room : SessionId → Room)
    (op : Operation) :
    Recorded (es ++ (g.perform room op).effects.filterMap Effect.event?)
      (g.perform room op).group := by
  have unchanged : Recorded (es ++ []) g := (List.append_nil es).symm ▸ h
  cases op with
  | promote id => exact h.promote hstep id
  | remove id reason => exact h.remove hstep id reason
  | kickAll order => exact h.kickEach hstep _
  | flushed id seq => exact h.flushed id seq
  | acceptUpdate id mime data =>
    simp only [perform, Outcome.map]
    obtain ⟨hsame, hnone, -⟩ | ⟨e, -, -, -, -, htaken⟩ := acceptUpdate_cases g room id mime data
    · rw [hsame, hnone]
      exact unchanged
    · rw [htaken]
      exact h.accept room mime data (.remote e.device) (some id)
  | publishLocal mime data =>
    simp only [perform, Outcome.map]
    obtain ⟨-, hsame⟩ | ⟨-, htaken⟩ := publishLocal_cases g room mime data
    · rw [hsame]
      exact unchanged
    · rw [htaken]
      exact h.accept room mime data .local none
  | discovery me port machine e =>
    have hquiet : Quiet ((g.onDiscovery me port machine e).effects.filterMap Effect.event?) := by
      intro k joined
      unfold onDiscovery
      cases e with
      | added d =>
        simp only
        split
        · rfl
        · split <;> rfl
      | removed d =>
        simp only
        split <;> rfl
    simp only [perform, Outcome.map]
    obtain ⟨t, ht⟩ := onDiscovery_group g me port machine e
    rw [ht]
    exact h.of_map (fun _ e => e) (fun _ _ => rfl) (fun _ _ => rfl) (by simp) rfl hquiet

theorem Told.recorded (h : Told limit es g) : Recorded es g := by
  induction h with
  | fresh => exact recorded_fresh limit
  | attach _ _ hrole ih => exact ih.attach hrole
  | perform room op htold ih => exact recorded_perform ih htold.reachable.inStep room op

/-! ## What the records are for -/

/-- A member is on record as what it joined as first. -/
theorem Recorded.mem_members_iff (h : Recorded es g) (hkeyed : g.members.Keyed Member.device) :
    d ∈ g.members.values.map Member.device ↔ (joins d.identity es).head? = some d := by
  rw [← h.record, List.mem_map, Option.map_eq_some_iff]
  refine exists_congr fun m => ?_
  rw [Table.mem_values_iff]
  constructor
  · rintro ⟨⟨k, hm⟩, rfl⟩
    rw [hkeyed k m hm]
    exact ⟨hm, rfl⟩
  · rintro ⟨hm, rfl⟩
    exact ⟨⟨_, hm⟩, rfl⟩

theorem Told.keyed (h : Told limit es g) : g.Keyed := by
  induction h with
  | fresh => exact keyed_fresh limit
  | attach _ _ _ ih => exact ⟨ih.members, ih.discovered⟩
  | perform room op _ ih => exact (announces_perform ih room op).keyed

theorem deviceWithFingerprint?_isSome {f : Fingerprint} :
    (g.deviceWithFingerprint? f).isSome = true ↔
      (∃ d ∈ g.discovered.values, d.fingerprint = some f) ∨
        ∃ d ∈ g.members.values.map Member.device, d.fingerprint = some f := by
  simp only [deviceWithFingerprint?, List.find?_isSome, List.mem_append, or_and_right, exists_or,
    decide_eq_true_eq]

/-- **The record of a member is how it joined first.** In every group that can be reached:

* the devices that are listed as members are those that joined and did not leave since, each as what
  it joined as first;
* the session of a member is authenticated, and filed under what the member joined as last;
* a device that is listed has the fingerprint that its session is filed under if it always joined
  with that fingerprint, and is what its session is filed under if it joined once;
* a certificate is known if and only if a discovered device has it or a member joined with it
  first. -/
theorem member_record_is_the_first_join (h : Told limit es g) :
    (∀ d, d ∈ g.memberDevices ↔ (joins d.identity es).head? = some d) ∧
    (∀ d ∈ g.memberDevices, ∃ id e, g.memberSession? d.identity = some id ∧
      g.sessions.get? id = some e ∧ e.role = .authenticated ∧
      (joins d.identity es).getLast? = some e.device ∧
      ((∀ c ∈ joins d.identity es, c.fingerprint = d.fingerprint) →
        d.fingerprint = e.device.fingerprint) ∧
      ((joins d.identity es).length = 1 → d = e.device)) ∧
    ∀ f, (g.deviceWithFingerprint? f).isSome = true ↔
      (∃ d ∈ g.discovered.values, d.fingerprint = some f) ∨
        ∃ d, (joins d.identity es).head? = some d ∧ d.fingerprint = some f := by
  have hrecorded := h.recorded
  have hmembers := fun d => hrecorded.mem_members_iff (d := d) h.keyed.members
  have hlisted : ∀ d, d ∈ g.memberDevices ↔ (joins d.identity es).head? = some d := by
    intro d
    rw [memberDevices, Device.listed, List.mem_mergeSort]
    exact hmembers d
  refine ⟨hlisted, fun d hd => ?_, fun f => ?_⟩
  -- The record is the first of the joins and the session the last, so one join makes them agree.
  · have hhead := (hlisted d).1 hd
    obtain ⟨m, hm, -⟩ := Option.map_eq_some_iff.1 ((hrecorded.record _).trans hhead)
    have hmember : g.memberSession? d.identity = some m.session := by rw [memberSession?, hm]; rfl
    obtain ⟨e, he, hauth, hid⟩ := (h.reachable.inStep _ _).1 hmember
    have hlast := hrecorded.session _ e he hauth
    rw [hid] at hlast
    refine ⟨m.session, e, hmember, he, hauth, hlast, fun hsame => ?_, fun hone => ?_⟩
    · exact (hsame _ (List.mem_of_getLast? hlast)).symm
    · obtain ⟨c, hc⟩ := List.length_eq_one_iff.1 hone
      rw [hc] at hhead hlast
      exact (Option.some.inj hhead).symm.trans (Option.some.inj hlast)
  · rw [deviceWithFingerprint?_isSome]
    simp only [hmembers]

/-! ## A device that gets another certificate -/

/-- The neighbour with a certificate. -/
def certified (f : Fingerprint) : Device := { neighbour with fingerprint := some f }

/-- The neighbour joins with a certificate. -/
def join (g : Group) (id : SessionId) (f : Fingerprint) : Group :=
  ((g.attach id (dialedEntry (certified f))).promote id).group

theorem Told.join (h : Told limit es g) (id : SessionId) (f : Fingerprint)
    (hnew : g.sessions.get? id = none) :
    Told limit (es ++ ((g.attach id (dialedEntry (certified f))).promote id).effects.filterMap
      Effect.event?) (g.join id f) :=
  (h.attach hnew rfl).perform (fun _ => .free) (.promote id)

/-- The neighbour has joined, left and joined again. -/
def returned : Group := ((((fresh 10).join 1 ⟨"old"⟩).remove 1 .idle).group).join 2 ⟨"new"⟩

theorem told_returned : Told 10 [.deviceJoined (certified ⟨"old"⟩), .deviceLeft (certified ⟨"old"⟩),
    .deviceJoined (certified ⟨"new"⟩)] returned := by
  have left := ((Told.fresh : Told 10 _ _).join 1 ⟨"old"⟩ rfl).perform (fun _ => .free)
    (.remove 1 .idle)
  have htold := left.join 2 ⟨"new"⟩ (by decide +kernel)
  refine (congrArg (Told 10 · returned) ?_).mpr htold
  decide +kernel

/-- A device that left in between is on record with its new certificate. -/
theorem member_record_is_the_first_join_returned :
    Told 10 [.deviceJoined (certified ⟨"old"⟩), .deviceLeft (certified ⟨"old"⟩),
      .deviceJoined (certified ⟨"new"⟩)] returned ∧
    certified ⟨"new"⟩ ∈ returned.memberDevices ∧
    (returned.deviceWithFingerprint? ⟨"new"⟩).isSome = true := by
  obtain ⟨hlisted, -, hknown⟩ := member_record_is_the_first_join told_returned
  have hjoins : joins (certified ⟨"new"⟩).identity [.deviceJoined (certified ⟨"old"⟩),
      .deviceLeft (certified ⟨"old"⟩), .deviceJoined (certified ⟨"new"⟩)] =
      [certified ⟨"new"⟩] := by decide +kernel
  have hhead := congrArg List.head? hjoins
  exact ⟨told_returned, (hlisted _).2 hhead, (hknown _).2 (.inr ⟨_, hhead, rfl⟩)⟩

/-- The neighbour joins once more, with another certificate. -/
def rejoined : Group := ((fresh 10).join 1 ⟨"old"⟩).join 2 ⟨"new"⟩

theorem reachable_rejoined : Reachable 10 rejoined :=
  (((Reachable.attach .fresh rfl rfl).promote 1).attach rfl rfl).promote 2

/-- **A record may be stale.** The session of the member is filed under its new certificate, but the
member is listed with the old one, and the new one is not known. -/
theorem rejoined_record_is_stale : Reachable 10 rejoined ∧
    (∃ d ∈ rejoined.memberDevices, ∃ id e, rejoined.memberSession? d.identity = some id ∧
      rejoined.sessions.get? id = some e ∧ e.role = .authenticated ∧
      d.fingerprint ≠ e.device.fingerprint) ∧
    rejoined.deviceWithFingerprint? ⟨"new"⟩ = none := by
  have hlisted : certified ⟨"old"⟩ ∈ rejoined.memberDevices := by decide +kernel
  exact ⟨reachable_rejoined, ⟨_, hlisted, 2, _, by decide +kernel, rfl, rfl, by decide⟩,
    by decide +kernel⟩

end SharedClipboard.Group
