import SharedClipboard.Proofs.Group.Operation
import Mathlib.Tactic.Set

/-!
# Members and sessions stay in step

**Theorem (`members_in_step`).** In every reachable group the member session of a device is the
one authenticated session of that device, and every authenticated session is the member session of
its device.

The two tables have different keys, so the proof is an induction over the operations with the
invariant `Group.InStep`. Becoming a member keeps it because the session that is replaced leaves
the session table at the moment at which its device passes to the new session; ending keeps it
because a session takes with it only the member that points at it. All other operations keep the
role and the device of every session.
-/

namespace SharedClipboard.Group

/-- The member session of a device is exactly the session that is authenticated as that device. -/
def InStep (g : Group) : Prop :=
  ∀ k id, g.memberSession? k = some id ↔ g.Admitted id k

theorem inStep_fresh (limit : Nat) : (fresh limit).InStep := fun k id => by
  simp [memberSession?, Admitted, fresh]

/-! ## One lemma per kind of change -/

/-- A change that keeps the role and the device of every session keeps the invariant. -/
theorem InStep.of_map {g g' : Group} (h : g.InStep) (f : SessionId → SessionEntry → SessionEntry)
    (hrole : ∀ j e, (f j e).role = e.role) (hdevice : ∀ j e, (f j e).device = e.device)
    (hsessions : ∀ j, g'.sessions.get? j = (g.sessions.get? j).map (f j))
    (hmembers : ∀ k, g'.memberSession? k = g.memberSession? k) : g'.InStep := by
  intro k id
  rw [hmembers, h k id]
  unfold Admitted
  rw [hsessions]
  cases g.sessions.get? id with
  | none => simp
  | some e => simp [hrole, hdevice]

theorem InStep.not_member {g : Group} (h : g.InStep) {id : SessionId} {e : SessionEntry}
    (he : g.sessions.get? id = some e) (hrole : e.role = .unauthenticated)
    (k : Device.Identity) : g.memberSession? k ≠ some id := by
  intro hm
  obtain ⟨e', he', hrole', -⟩ := (h k id).1 hm
  rw [he] at he'
  cases he'
  rw [hrole] at hrole'
  cases hrole'

theorem InStep.attach {g : Group} (h : g.InStep) {id : SessionId} {e : SessionEntry}
    (hnew : g.sessions.get? id = none) (hrole : e.role = .unauthenticated) :
    (g.attach id e).InStep := by
  intro k j
  rw [memberSession?_attach, h k j]
  unfold Admitted
  rw [get?_sessions_attach]
  by_cases hj : id = j
  · subst hj
    simp [hnew, hrole]
  · simp [hj]

/-- The session that is replaced leaves the session table together with its place as a member. -/
theorem InStep.promote {g : Group} (h : g.InStep) (id : SessionId) :
    (g.promote id).group.InStep := by
  obtain ⟨hsame, -⟩ | ⟨e, he, hrole, -, hsessions, hmembers⟩ := promote_cases g id
  · rw [hsame]
    exact h
  · set key := (g.promoted e).device.identity with hkey
    have hid : g.memberSession? key ≠ some id := h.not_member he hrole key
    intro k j
    unfold Admitted
    rw [hmembers, hsessions]
    by_cases hk : key = k
    · subst hk
      rw [if_pos rfl]
      by_cases hj : id = j
      · subst hj
        exact ⟨fun _ => ⟨g.promoted e, by rw [if_neg hid, if_pos rfl], rfl, rfl⟩, fun _ => rfl⟩
      · -- Another session of the same device would have been the member session until now.
        rw [if_neg hj]
        refine ⟨fun heq => absurd (Option.some.inj heq) hj, ?_⟩
        rintro ⟨e', he', hrole', hdev⟩
        split at he'
        · cases he'
        · rename_i hne
          exact absurd ((h key j).2 ⟨e', he', hrole', hdev⟩) hne
    -- For the other devices nothing changes, unless a session changed sides: `id` was no member,
    -- and the session that is replaced was the member session of this device only.
    · rw [if_neg hk, h k j]
      by_cases hj : id = j
      · subst hj
        simp only [hid, if_false, if_true, Option.some.injEq]
        constructor
        · rintro ⟨e', he', hrole', -⟩
          rw [he] at he'
          cases he'
          rw [hrole] at hrole'
          cases hrole'
        · rintro ⟨e', rfl, -, hdev⟩
          exact absurd hdev hk
      · rw [if_neg hj]
        by_cases hold : g.memberSession? key = some j
        · rw [if_pos hold]
          exact ⟨fun hadm => absurd (((h key j).1 hold).unique hadm) hk, by simp⟩
        · rw [if_neg hold]
          rfl

theorem InStep.remove {g : Group} (h : g.InStep) (id : SessionId) (reason : CloseReason) :
    (g.remove id reason).group.InStep := by
  cases he : g.sessions.get? id with
  | none =>
    rw [remove_of_none he]
    exact h
  | some e =>
    intro k j
    unfold Admitted
    rw [memberSession?_remove g he, get?_sessions_remove]
    by_cases hj : id = j
    · subst hj
      simp only [if_true, reduceCtorEq, false_and, exists_false, iff_false]
      split
      · simp
      · rename_i hne
        intro hm
        obtain ⟨e', he', -, hdev⟩ := (h k id).1 hm
        rw [he] at he'
        cases he'
        exact hne ⟨hdev, hm⟩
    · rw [if_neg hj]
      by_cases hm : e.device.identity = k ∧ g.memberSession? k = some id
      · rw [if_pos hm]
        refine ⟨by simp, fun hadm => ?_⟩
        have hjk := (h k j).2 hadm
        rw [hm.2] at hjk
        exact absurd (Option.some.inj hjk) hj
      · rw [if_neg hm]
        exact h k j

theorem InStep.kickEach {g : Group} (h : g.InStep) (ids : List SessionId) :
    (g.kickEach ids).group.InStep := by
  induction ids generalizing g with
  | nil => exact h
  | cons id ids ih => exact ih (h.remove id .kicked)

theorem InStep.accept {g : Group} (h : g.InStep) (room : SessionId → Room) (mime : String)
    (data : Bytes) (origin : Origin) (except? : Option SessionId) :
    (g.accept room mime data origin except?).group.InStep := by
  refine h.of_map (fun j e => if j ∈ g.recipients room except? then
    { e with inFlight := some g.history.nextSeq } else e) ?_ ?_ (fun j => ?_) fun _ => rfl
  · intro j e
    split <;> rfl
  · intro j e
    split <;> rfl
  · rw [get?_sessions_accept]
    split <;> simp

theorem InStep.flushed {g : Group} (h : g.InStep) (id : SessionId) (seq : Nat) :
    (g.flushed id seq).InStep := by
  refine h.of_map (fun j e => if id = j ∧ e.inFlight = some seq then
    { e with inFlight := none } else e) ?_ ?_ (fun j => ?_) fun _ => rfl
  · intro j e
    split <;> rfl
  · intro j e
    split <;> rfl
  · rw [get?_sessions_flushed]
    by_cases hj : id = j <;> simp [hj]

/-! ## Every operation, every run -/

theorem inStep_perform {g : Group} (h : g.InStep) (room : SessionId → Room) (op : Operation) :
    (g.perform room op).group.InStep := by
  apply perform_cases
  case same => exact h
  case promote => exact fun id _ => h.promote id
  case remove => exact fun id reason _ => h.remove id reason
  case kickAll => exact fun order _ => h.kickEach _
  case accept => exact fun mime data origin except? => h.accept room mime data origin except?
  case flushed => exact h.flushed
  case discovery => exact fun _ => h

theorem Reachable.inStep {limit : Nat} {g : Group} (h : Reachable limit g) : g.InStep := by
  induction h with
  | fresh => exact inStep_fresh limit
  | attach _ hnew hrole ih => exact ih.attach hnew hrole
  | perform room op _ ih => exact inStep_perform ih room op

/-- **Members and sessions stay in step.** In every reachable group a device has a session as its
member session if and only if that session is in the session table, is authenticated and is of the
device. So a device has at most one authenticated session, no two devices share their member
session, a session that is not authenticated is no member, and no member points at a session that
is gone. -/
theorem members_in_step {limit : Nat} {g : Group} (h : Reachable limit g) :
    (∀ (d : Device) (id : SessionId), g.memberSession? d.identity = some id ↔
      ∃ e, g.sessions.get? id = some e ∧ e.role = .authenticated ∧ e.device.same d) ∧
    (∀ i j e f, g.sessions.get? i = some e → g.sessions.get? j = some f →
      e.role = .authenticated → f.role = .authenticated → e.device.same f.device → i = j) ∧
    (∀ (d d' : Device) (id : SessionId), g.memberSession? d.identity = some id →
      g.memberSession? d'.identity = some id → d.same d') ∧
    (∀ id e, g.sessions.get? id = some e → e.role = .unauthenticated →
      ∀ d : Device, g.memberSession? d.identity ≠ some id) ∧
    ∀ (d : Device) (id : SessionId), g.memberSession? d.identity = some id →
      g.sessions.contains id := by
  have hstep := h.inStep
  refine ⟨fun d id => ?_, fun i j e f he hf hre hrf hsame => ?_, fun d d' id hd hd' => ?_,
    fun id e he hrole d => hstep.not_member he hrole d.identity, fun d id hd => ?_⟩
  · simpa [Admitted] using hstep d.identity id
  · have hi := (hstep e.device.identity i).2 ⟨e, he, hre, rfl⟩
    have hj := (hstep e.device.identity j).2 ⟨f, hf, hrf, (Device.same_iff.1 hsame).symm⟩
    exact Option.some.inj (hi.symm.trans hj)
  · exact Device.same_iff.2 (((hstep d.identity id).1 hd).unique ((hstep d'.identity id).1 hd'))
  · obtain ⟨e, he, -⟩ := (hstep d.identity id).1 hd
    simp [Table.contains, he]

/-- A session that this node opened to a device. -/
def dialedEntry (d : Device) : SessionEntry :=
  { device := d, peer := d.socketAddress, peerFingerprint := d.fingerprint, direction := .outbound }

/-- A device of the local network. -/
def neighbour : Device := { address := .v4 0x0A000009, port := 4000, name := "neighbour" }

/-- A group whose one member was dialed twice, with a third session of it not yet admitted. -/
def reconnected : Group :=
  ((((fresh 10).attach 1 (dialedEntry neighbour)).promote 1).group.attach 2
    (dialedEntry neighbour) |>.promote 2).group.attach 3 (dialedEntry neighbour)

theorem reachable_reconnected : Reachable 10 reconnected :=
  have first := (Reachable.attach .fresh rfl rfl).promote 1
  have second := (first.attach rfl rfl).promote 2
  second.attach rfl rfl

/-- The second session of a device that was dialed twice is its member session; the first is gone
and the third, which is not admitted, is no member. -/
theorem members_in_step_reconnected : Reachable 10 reconnected ∧
    reconnected.memberSession? neighbour.identity = some 2 ∧
    reconnected.memberSession? neighbour.identity ≠ some 1 ∧
    reconnected.memberSession? neighbour.identity ≠ some 3 := by
  have h := members_in_step reachable_reconnected
  refine ⟨reachable_reconnected, (h.1 neighbour 2).2 ⟨_, rfl, rfl, by decide⟩, fun h1 => ?_,
    h.2.2.2.1 3 (dialedEntry neighbour) rfl rfl neighbour⟩
  exact absurd (h.2.2.2.2 neighbour 1 h1) (by decide)

end SharedClipboard.Group
