import SharedClipboard.Proofs.Group.Membership
import SharedClipboard.Proofs.Group.Run
import Mathlib.Data.List.Forall2

/-!
# Sessions that are never admitted change nothing

**Theorem (`strangers_change_nothing`).** Take two runs of a group from the same start that differ
only in what happens to strangers, which are sessions that are never admitted. At the end the
members, the discovered devices and the history are the same, every other session has the same entry
and the same outbox, the same events were announced but for failed authentications, and every step
on anything but a stranger answered the same, except that discovery may name a device to dial in one
run and not in the other. The two runs may end all sessions in different orders; then the members
are announced to leave in different orders, and nothing else differs (`reorder_run`).

The proof compares a run with the run in which the strangers are not there at all. `Group.hide`
takes the strangers out of a group. A step on a stranger leaves what `hide` shows as it is
(`hide_turn_of_stranger`), and every other step does the same to the group and to what `hide` shows
of it (`hide_turn`). Both need that no member is a stranger, which is the invariant `Outside`.
-/

namespace SharedClipboard

/-! ## What is shared by two groups -/

namespace Group

variable {stranger : SessionId → Bool} {g : Group}

/-- The group without the strangers. -/
def hide (g : Group) (stranger : SessionId → Bool) : Group :=
  { g with sessions := g.sessions.keep fun id => !stranger id }

/-- No stranger is a member, and none is authenticated. -/
structure Outside (stranger : SessionId → Bool) (g : Group) : Prop where
  members : ∀ k id, g.memberSession? k = some id → stranger id = false
  sessions : ∀ id e, stranger id → g.sessions.get? id = some e → e.role = .unauthenticated

/-- The session that an operation is about, if it is about one. -/
def Operation.session? : Operation → Option SessionId
  | .promote id | .remove id _ | .acceptUpdate id _ _ | .flushed id _ => some id
  | .kickAll _ | .publishLocal _ _ | .discovery _ _ _ _ => none

/-- The answer without the device that is worth dialing. -/
def Answer.withoutHint : Answer → Answer
  | .toDial _ => .done
  | a => a

/-- Two outcomes that differ in nothing but strangers and in whether a device is worth dialing. -/
structure SameBut (stranger : SessionId → Bool) (o o' : Outcome Answer) : Prop where
  group : o.group.hide stranger = o'.group
  events : o.effects.filterMap Effect.event? = o'.effects.filterMap Effect.event?
  outboxes : ∀ b, o.effects.foldl Effect.onOutboxes b = o'.effects.foldl Effect.onOutboxes b
  answer : o.answer.withoutHint = o'.answer.withoutHint

theorem Outside.of_member (h : Outside stranger g) {k : Device.Identity} {m : Member}
    (hm : g.members.get? k = some m) : stranger m.session = false :=
  h.members k m.session (by simp [memberSession?, hm])

theorem sameBut_of_eq {o o' : Outcome Answer} (hgroup : o.group.hide stranger = o'.group)
    (heffects : o.effects = o'.effects) (hanswer : o.answer = o'.answer) :
    SameBut stranger o o' :=
  ⟨hgroup, by rw [heffects], fun b => by rw [heffects], by rw [hanswer]⟩

theorem get?_sessions_hide (g : Group) {id : SessionId} (h : stranger id = false) :
    (g.hide stranger).sessions.get? id = g.sessions.get? id := by
  simp [hide, Table.get?_keep, h]

theorem contains_sessions_hide (g : Group) {id : SessionId} (h : stranger id = false) :
    (g.hide stranger).sessions.contains id = g.sessions.contains id := by
  simp [Table.contains, get?_sessions_hide g h]

/-! ## Operations on others -/

theorem promoted_hide (e : SessionEntry) : (g.hide stranger).promoted e = g.promoted e := rfl

theorem sameBut_promote (h : Outside stranger g) {id : SessionId} (hid : stranger id = false) :
    SameBut stranger ((g.promote id).map .promoted)
      (((g.hide stranger).promote id).map .promoted) := by
  have hput : ∀ e, (g.sessions.put id e).keep (fun id => !stranger id) =
      (g.sessions.keep fun id => !stranger id).put id e :=
    fun e => Table.keep_put (by simp [hid]) g.sessions e
  unfold promote
  rw [get?_sessions_hide g hid]
  cases g.sessions.get? id with
  | none => exact sameBut_of_eq rfl rfl rfl
  | some e =>
    simp only [promoted_hide]
    split
    · exact sameBut_of_eq rfl rfl rfl
    · cases hm : g.members.get? (g.promoted e).device.identity with
      | none =>
        have hm' : (g.hide stranger).members.get? (g.promoted e).device.identity = none := hm
        simp only [hm']
        refine sameBut_of_eq ?_ rfl rfl
        simp only [Outcome.map, hide, hput]
      | some old =>
        have hm' : (g.hide stranger).members.get? (g.promoted e).device.identity = some old := hm
        -- The session that is replaced is no stranger's, so the other group ends it as well.
        have hold : stranger old.session = false := h.of_member hm
        have hcontains : (g.sessions.put id (g.promoted e)).contains old.session =
            ((g.hide stranger).sessions.put id (g.promoted e)).contains old.session := by
          simp only [Table.contains, Table.get?_put, get?_sessions_hide g hold]
        simp only [hm']
        refine sameBut_of_eq ?_ ?_ rfl
        · simp only [Outcome.map, hide, Table.keep_erase, hput]
        · simp only [Outcome.map, hcontains]
          rfl

theorem sameBut_remove {id : SessionId} (hid : stranger id = false) (reason : CloseReason) :
    SameBut stranger ((g.remove id reason).map .departed)
      (((g.hide stranger).remove id reason).map .departed) := by
  unfold remove
  rw [get?_sessions_hide g hid]
  cases g.sessions.get? id with
  | none => exact sameBut_of_eq rfl rfl rfl
  | some e =>
    have hm : (g.hide stranger).members = g.members := rfl
    simp only [hm]
    split
    · refine sameBut_of_eq ?_ rfl rfl
      simp only [Outcome.map, hide, Table.keep_erase]
    · refine sameBut_of_eq ?_ rfl rfl
      simp only [Outcome.map, hide, Table.keep_erase]

/-- Dropping a stranger shows nowhere and announces nothing, but that its handshake failed. -/
theorem remove_of_stranger (h : Outside stranger g) {id : SessionId} (hid : stranger id)
    (reason : CloseReason) :
    (g.remove id reason).group.hide stranger = g.hide stranger ∧
      (g.remove id reason).answer = none ∧
      ((g.remove id reason).effects = [] ∨
        ∃ d cause, reason = .auth cause ∧
          (g.remove id reason).effects = [.announce (.authenticationFailed d cause)]) := by
  unfold remove
  cases he : g.sessions.get? id with
  | none => exact ⟨rfl, rfl, .inl rfl⟩
  | some e =>
    have hnone : (g.members.get? e.device.identity).any (·.session == id) = false := by
      cases hm : g.members.get? e.device.identity with
      | none => rfl
      | some m =>
        have hout := h.of_member hm
        simp only [Option.any_some, beq_eq_false_iff_ne, ne_eq]
        rintro rfl
        rw [hid] at hout
        cases hout
    simp only [hnone, Bool.false_eq_true, if_false]
    refine ⟨?_, trivial, ?_⟩
    · simp only [hide, Table.keep_erase_of_not (p := fun id => !stranger id) (k := id)
        (by simp [hid])]
    · rw [h.sessions id e hid he]
      cases reason with
      | auth cause => exact .inr ⟨e.device, cause, rfl, rfl⟩
      | _ => exact .inl rfl

theorem Outside.remove (h : Outside stranger g) (id : SessionId) (reason : CloseReason) :
    Outside stranger (g.remove id reason).group where
  sessions j e hj he := by
    rw [get?_sessions_remove] at he
    split at he
    · cases he
    · exact h.sessions j e hj he
  members k j hm := by
    cases he : g.sessions.get? id with
    | none =>
      rw [remove_of_none he] at hm
      exact h.members k j hm
    | some e =>
      rw [memberSession?_remove g he] at hm
      split at hm
      · cases hm
      · exact h.members k j hm

/-- Ending sessions ends the ones that are no strangers in the same order. -/
theorem kickEach_hide (h : Outside stranger g) (ids : List SessionId) :
    (g.kickEach ids).group.hide stranger =
        ((g.hide stranger).kickEach (ids.filter fun id => !stranger id)).group ∧
      (g.kickEach ids).effects.filterMap Effect.event? =
        ((g.hide stranger).kickEach (ids.filter fun id => !stranger id)).effects.filterMap
          Effect.event? := by
  -- The group with strangers ends more sessions, each of which leaves the hidden group as it is.
  induction ids generalizing g with
  | nil => exact ⟨rfl, rfl⟩
  | cons id ids ih =>
    obtain ⟨hgroup, hevents⟩ := ih (h.remove id .kicked)
    by_cases hid : stranger id = true
    · obtain ⟨hsame, -, hnone | ⟨d, cause, hauth, -⟩⟩ := remove_of_stranger h hid .kicked
      · rw [hsame] at hgroup hevents
        simp only [kickEach, hnone, List.filter_cons, hid, Bool.not_true,
          Bool.false_eq_true, if_false]
        exact ⟨hgroup, hevents⟩
      · cases hauth
    · rw [Bool.not_eq_true] at hid
      have hrem := sameBut_remove (g := g) hid .kicked
      have hg : (g.remove id .kicked).group.hide stranger =
          ((g.hide stranger).remove id .kicked).group := hrem.group
      have he : (g.remove id .kicked).effects.filterMap Effect.event? =
          ((g.hide stranger).remove id .kicked).effects.filterMap Effect.event? := hrem.events
      rw [hg] at hgroup hevents
      simp only [kickEach, List.filter_cons, hid, Bool.not_false, if_true]
      refine ⟨hgroup, ?_⟩
      simp only [List.filterMap_cons, List.filterMap_append, Effect.event?, he, hevents]

theorem outboxes_kickEach (ids : List SessionId) (b : Outboxes) :
    (g.kickEach ids).effects.foldl Effect.onOutboxes b = b := by
  induction ids generalizing g with
  | nil => rfl
  | cons id ids ih =>
    have hremove : (g.remove id .kicked).effects.foldl Effect.onOutboxes b = b := by
      unfold remove
      split
      · rfl
      · simp only
        split
        · rfl
        · split <;> rfl
    simp only [kickEach, List.cons_append, List.foldl_cons, List.foldl_append, Effect.onOutboxes,
      hremove, ih]

theorem sameBut_kickAll (h : Outside stranger g) (order : List SessionId) :
    SameBut stranger ((g.kickAll order).map fun _ => .done)
      (((g.hide stranger).kickAll order).map fun _ => .done) := by
  have hkeys : (g.hide stranger).sessions.keysFrom order =
      (g.sessions.keysFrom order).filter fun id => !stranger id :=
    Table.keysFrom_keep g.sessions (fun id => !stranger id) order
  unfold kickAll
  rw [hkeys]
  obtain ⟨hgroup, hevents⟩ := kickEach_hide h (g.sessions.keysFrom order)
  exact ⟨hgroup, hevents, fun b => by
    simp only [Outcome.map, outboxes_kickEach], rfl⟩

/-! ## The clipboard -/

theorem recipients_hide (h : Outside stranger g) {room room' : SessionId → Room}
    (hroom : ∀ id, stranger id = false → room id = room' id) (except? : Option SessionId) :
    (g.hide stranger).recipients room' except? = g.recipients room except? := by
  unfold recipients
  refine List.filter_congr fun id hid => ?_
  obtain ⟨m, hm, rfl⟩ := List.mem_map.1 hid
  obtain ⟨k, hk⟩ := Table.mem_values_iff.1 hm
  have hout := h.of_member hk
  rw [contains_sessions_hide g hout, hroom m.session hout]

theorem markInFlight_hide (seq : Nat) (ids : List SessionId) :
    (g.hide stranger).markInFlight seq ids = (g.markInFlight seq ids).hide stranger := by
  have hfold : ∀ t : Table SessionId SessionEntry,
      ids.foldl (fun t id => t.modify id fun e => { e with inFlight := some seq })
          (t.keep fun id => !stranger id) =
        (ids.foldl (fun t id => t.modify id fun e => { e with inFlight := some seq })
          t).keep fun id => !stranger id := by
    induction ids with
    | nil => exact fun t => rfl
    | cons id ids ih =>
      intro t
      rw [List.foldl_cons, List.foldl_cons, ← Table.keep_modify, ih]
  simp only [markInFlight, hide, hfold]

theorem accept_hide (h : Outside stranger g) {room room' : SessionId → Room}
    (hroom : ∀ id, stranger id = false → room id = room' id) (mime : String) (data : Bytes)
    (origin : Origin) (except? : Option SessionId) :
    (g.hide stranger).accept room' mime data origin except? =
      { g.accept room mime data origin except? with
        group := (g.accept room mime data origin except?).group.hide stranger } := by
  unfold accept
  simp only [recipients_hide h hroom]
  congr 1
  exact markInFlight_hide (g := { g with
    history := (g.history.record mime data origin).2 }) _ _

theorem sameBut_publishLocal (h : Outside stranger g) {room room' : SessionId → Room}
    (hroom : ∀ id, stranger id = false → room id = room' id) (mime : String) (data : Bytes) :
    SameBut stranger ((g.publishLocal room mime data).map .published)
      (((g.hide stranger).publishLocal room' mime data).map .published) := by
  unfold publishLocal
  rw [accept_hide h hroom]
  have hhistory : (g.hide stranger).history = g.history := rfl
  rw [hhistory]
  split <;> exact sameBut_of_eq rfl rfl rfl

theorem sameBut_acceptUpdate (h : Outside stranger g) {room room' : SessionId → Room}
    (hroom : ∀ id, stranger id = false → room id = room' id) {id : SessionId}
    (hid : stranger id = false) (mime : String) (data : Bytes) :
    SameBut stranger ((g.acceptUpdate room id mime data).map .update)
      (((g.hide stranger).acceptUpdate room' id mime data).map .update) := by
  unfold acceptUpdate
  rw [get?_sessions_hide g hid]
  cases g.sessions.get? id with
  | none => exact sameBut_of_eq rfl rfl rfl
  | some e =>
    have hhistory : (g.hide stranger).history = g.history := rfl
    simp only [accept_hide h hroom, hhistory]
    split
    · exact sameBut_of_eq rfl rfl rfl
    · split
      · exact sameBut_of_eq rfl rfl rfl
      · split <;> exact sameBut_of_eq rfl rfl rfl

theorem sameBut_discovery (me : LocalIdentity) (port : UInt16) (machine : List Net.IpAddress)
    (e : DiscoveryEvent) :
    SameBut stranger ((g.onDiscovery me port machine e).map .toDial)
      (((g.hide stranger).onDiscovery me port machine e).map .toDial) := by
  unfold onDiscovery
  have hdiscovered : (g.hide stranger).discovered = g.discovered := rfl
  cases e with
  | added d =>
    simp only [hdiscovered]
    split
    · exact sameBut_of_eq rfl rfl rfl
    · split
      · refine ⟨?_, rfl, fun _ => rfl, rfl⟩
        simp only [Outcome.map]
        split <;> rfl
      · exact ⟨rfl, rfl, fun _ => rfl, rfl⟩
  | removed d =>
    simp only [hdiscovered]
    split <;> exact sameBut_of_eq rfl rfl rfl

theorem flushed_hide (id : SessionId) (seq : Nat) :
    (g.flushed id seq).hide stranger = (g.hide stranger).flushed id seq := by
  simp only [flushed, hide, Table.keep_modify]

/-- An operation on others does the same with and without the strangers. -/
theorem sameBut_perform (h : Outside stranger g) {room room' : SessionId → Room}
    (hroom : ∀ id, stranger id = false → room id = room' id) {op : Operation}
    (hop : op.session?.any stranger = false) :
    SameBut stranger (g.perform room op) ((g.hide stranger).perform room' op) := by
  cases op with
  | promote id => exact sameBut_promote h hop
  | remove id reason => exact sameBut_remove hop reason
  | kickAll order => exact sameBut_kickAll h order
  | acceptUpdate id mime data => exact sameBut_acceptUpdate h hroom hop mime data
  | publishLocal mime data => exact sameBut_publishLocal h hroom mime data
  | flushed id seq => exact sameBut_of_eq (flushed_hide id seq) rfl rfl
  | discovery me port machine e => exact sameBut_discovery me port machine e

/-! ## Operations on strangers -/

/-- An operation does not admit a stranger. -/
def Operation.KeepsOut (stranger : SessionId → Bool) : Operation → Prop
  | .promote id => stranger id = false
  | _ => True

/-- An operation on a stranger shows nowhere, and announces at most that its handshake failed. -/
theorem perform_of_stranger (h : Outside stranger g) (room : SessionId → Room) {op : Operation}
    (hop : op.session?.any stranger = true) (hout : op.KeepsOut stranger) :
    (g.perform room op).group.hide stranger = g.hide stranger ∧
      ((g.perform room op).effects = [] ∨
        ∃ d cause, (g.perform room op).effects =
          [.announce (.authenticationFailed d cause)]) := by
  cases op with
  | promote id =>
    rw [Operation.KeepsOut] at hout
    rw [Operation.session?, Option.any_some, hout] at hop
    cases hop
  | remove id reason =>
    obtain ⟨hgroup, -, hnone | ⟨d, cause, -, heffects⟩⟩ := remove_of_stranger h hop reason
    · exact ⟨hgroup, .inl hnone⟩
    · exact ⟨hgroup, .inr ⟨d, cause, heffects⟩⟩
  | acceptUpdate id mime data =>
    obtain ⟨hgroup, heffects, -⟩ | ⟨e, he, hrole, -⟩ := acceptUpdate_cases g room id mime data
    · exact ⟨congrArg (hide · stranger) hgroup, .inl heffects⟩
    · rw [h.sessions id e hop he] at hrole
      cases hrole
  | flushed id seq =>
    have hid : (!stranger id) = false := by
      rw [show stranger id = true from hop]
      rfl
    refine ⟨?_, .inl rfl⟩
    show (g.flushed id seq).hide stranger = _
    simp only [flushed, hide, Table.keep_modify_of_not (p := fun id => !stranger id) hid]
  | kickAll order => cases hop
  | publishLocal mime data => cases hop
  | discovery me port machine e => cases hop

/-! ## The invariant -/

/-- A change that gives no session another role and no device another member session keeps the
invariant. -/
theorem Outside.of_roles {g' : Group} (h : Outside stranger g)
    (hsessions : ∀ j e', g'.sessions.get? j = some e' →
      ∃ e, g.sessions.get? j = some e ∧ e.role = e'.role)
    (hmembers : ∀ k, g'.memberSession? k = g.memberSession? k) : Outside stranger g' where
  members k id hm := h.members k id (hmembers k ▸ hm)
  sessions id e' hid he' := by
    obtain ⟨e, he, hrole⟩ := hsessions id e' he'
    rw [← hrole]
    exact h.sessions id e hid he

theorem Outside.attach (h : Outside stranger g) {id : SessionId} {e : SessionEntry}
    (hrole : stranger id → e.role = .unauthenticated) : Outside stranger (g.attach id e) where
  members := h.members
  sessions j e' hj he' := by
    rw [get?_sessions_attach] at he'
    split at he'
    · rename_i hij
      cases he'
      exact hrole (hij ▸ hj)
    · exact h.sessions j e' hj he'

theorem Outside.promote (h : Outside stranger g) {id : SessionId} (hid : stranger id = false) :
    Outside stranger (g.promote id).group := by
  obtain ⟨hsame, -⟩ | ⟨e, he, -, -, hsessions, hmembers⟩ := promote_cases g id
  · rw [hsame]
    exact h
  · refine ⟨fun k j hm => ?_, fun j e' hj he' => ?_⟩
    · rw [hmembers] at hm
      split at hm
      · cases hm
        exact hid
      · exact h.members k j hm
    · rw [hsessions] at he'
      split at he'
      · cases he'
      · split at he'
        · rename_i hij
          rw [hij, hj] at hid
          cases hid
        · exact h.sessions j e' hj he'

theorem Outside.kickEach (h : Outside stranger g) (ids : List SessionId) :
    Outside stranger (g.kickEach ids).group := by
  induction ids generalizing g with
  | nil => exact h
  | cons id ids ih => exact ih (h.remove id .kicked)

theorem Outside.accept (h : Outside stranger g) (room : SessionId → Room) (mime : String)
    (data : Bytes) (origin : Origin) (except? : Option SessionId) :
    Outside stranger (g.accept room mime data origin except?).group := by
  refine h.of_roles (fun j e' he' => ?_) fun _ => rfl
  rw [get?_sessions_accept] at he'
  split at he'
  · obtain ⟨e, he, rfl⟩ := Option.map_eq_some_iff.1 he'
    exact ⟨e, he, rfl⟩
  · exact ⟨e', he', rfl⟩

theorem Outside.flushed (h : Outside stranger g) (id : SessionId) (seq : Nat) :
    Outside stranger (g.flushed id seq) := by
  refine h.of_roles (fun j e' he' => ?_) fun _ => rfl
  rw [get?_sessions_flushed] at he'
  split at he'
  · obtain ⟨e, he, rfl⟩ := Option.map_eq_some_iff.1 he'
    exact ⟨e, he, by split <;> rfl⟩
  · exact ⟨e', he', rfl⟩

theorem outside_perform (h : Outside stranger g) (room : SessionId → Room) {op : Operation}
    (hop : op.KeepsOut stranger) : Outside stranger (g.perform room op).group := by
  apply perform_cases
  case same => exact h
  case promote =>
    rintro id rfl
    exact h.promote hop
  case remove => exact fun id reason _ => h.remove id reason
  case kickAll => exact fun order _ => h.kickEach _
  case accept => exact fun mime data origin except? => h.accept room mime data origin except?
  case flushed => exact h.flushed
  case discovery => exact fun _ => ⟨h.members, h.sessions⟩

end Group

/-! ## Runs -/

namespace Simulation.GroupRun

variable {stranger : SessionId → Bool} {r : GroupRun}

/-- The run without the strangers and their outboxes. -/
def hide (r : GroupRun) (stranger : SessionId → Bool) : GroupRun :=
  { group := r.group.hide stranger, outboxes := r.outboxes.keep fun id => !stranger id }

/-- The session that a step is about, if it is about one. -/
def Step.session? : Step → Option SessionId
  | .attach id _ _ | .queue id _ | .take id _ | .closeOutbox id => some id
  | .operation op => op.session?

/-- Whether a step is about a stranger. -/
def Step.isOf (stranger : SessionId → Bool) (s : Step) : Bool := s.session?.any stranger

/-- A step does not admit a stranger. -/
def Step.KeepsOut (stranger : SessionId → Bool) : Step → Prop
  | .attach id e _ => stranger id → e.role = .unauthenticated
  | .operation op => op.KeepsOut stranger
  | _ => True

theorem outside_turn (h : Group.Outside stranger r.group) {s : Step} (hs : s.KeepsOut stranger) :
    Group.Outside stranger (r.turn s).run.group := by
  cases s with
  | attach id e capacity => exact h.attach hs
  | operation op => exact Group.outside_perform h r.room hs
  | queue id x => exact h
  | take id n =>
    show Group.Outside stranger (r.take id (some n)).2.group
    unfold GroupRun.take
    split
    · split <;> exact h
    · exact h
  | closeOutbox id => exact h

theorem room_hide {id : SessionId} (hid : stranger id = false) :
    r.room id = (r.hide stranger).room id := by
  simp [room, Outboxes.room, hide, Table.get?_keep, hid]

theorem foldl_onOutboxes_keep (es : List Group.Effect) (p : SessionId → Bool) (o : Outboxes) :
    (es.foldl Group.Effect.onOutboxes o).keep p = es.foldl Group.Effect.onOutboxes (o.keep p) := by
  induction es generalizing o with
  | nil => rfl
  | cons e es ih =>
    rw [List.foldl_cons, List.foldl_cons, ih]
    cases e with
    | deliver id x =>
      simp only [Group.Effect.onOutboxes, Outboxes.push, Table.keep_modify]
    | announce _ => rfl
    | kick _ => rfl

/-- Two turns that differ in nothing but strangers and in whether a device is worth dialing. -/
structure SameTurn (stranger : SessionId → Bool) (t t' : Turn) : Prop where
  run : t.run.hide stranger = t'.run
  events : t.effects.filterMap Group.Effect.event? = t'.effects.filterMap Group.Effect.event?
  answer : t.answer.withoutHint = t'.answer.withoutHint

theorem hide_take {id : SessionId} (hid : stranger id = false) (n : Option Nat) :
    (r.take id n).2.hide stranger = ((r.hide stranger).take id n).2 := by
  have hget : (r.hide stranger).outboxes.get? id = r.outboxes.get? id := by
    simp [hide, Table.get?_keep, hid]
  unfold GroupRun.take
  rw [hget]
  cases r.outboxes.get? id with
  | none => rfl
  | some o =>
    simp only
    split
    · rfl
    · simp only [hide, Table.keep_put (p := fun id => !stranger id) (k := id) (by simp [hid])]

/-- A step on others does the same with and without the strangers. -/
theorem hide_turn (h : Group.Outside stranger r.group) {s : Step} (hs : s.isOf stranger = false) :
    SameTurn stranger (r.turn s) ((r.hide stranger).turn s) := by
  cases s with
  | attach id e capacity =>
    have hid : (!stranger id) = true := by
      rw [show stranger id = false from hs]
      rfl
    refine ⟨?_, rfl, rfl⟩
    simp only [turn, GroupRun.attach, Group.attach, hide, Group.hide,
      Table.keep_put (p := fun id => !stranger id) hid]
  | operation op =>
    have hsame : Group.SameBut stranger (r.group.perform r.room op)
        ((r.group.hide stranger).perform (r.hide stranger).room op) :=
      Group.sameBut_perform h (fun id hid => room_hide hid) hs
    refine ⟨?_, hsame.events, hsame.answer⟩
    simp only [turn, settle, hide, foldl_onOutboxes_keep]
    rw [hsame.group, hsame.outboxes]
    rfl
  | queue id x =>
    refine ⟨?_, rfl, rfl⟩
    simp only [turn, hide, Outboxes.push, Table.keep_modify]
  | take id n => exact ⟨hide_take hs (some n), rfl, rfl⟩
  | closeOutbox id =>
    refine ⟨?_, rfl, rfl⟩
    simp only [turn, GroupRun.closeOutbox, hide, Table.keep_modify]

/-- The event says that a handshake failed. -/
def isFailure : Event → Bool
  | .authenticationFailed _ _ => true
  | _ => false

/-- A step on a stranger shows nowhere, and announces at most that its handshake failed. -/
theorem hide_turn_of_stranger (h : Group.Outside stranger r.group) {s : Step}
    (hs : s.isOf stranger = true) (hout : s.KeepsOut stranger) :
    (r.turn s).run.hide stranger = r.hide stranger ∧
      ∀ e ∈ (r.turn s).effects.filterMap Group.Effect.event?, isFailure e := by
  have hput : ∀ {ν : Type} {id : SessionId} (t : Table SessionId ν) (v : ν), stranger id = true →
      (t.put id v).keep (fun id => !stranger id) = t.keep fun id => !stranger id :=
    fun t v hid => Table.keep_put_of_not (by simp [hid]) t v
  have hmodify : ∀ {ν : Type} {id : SessionId} (t : Table SessionId ν) (f : ν → ν),
      stranger id = true →
      (t.modify id f).keep (fun id => !stranger id) = t.keep fun id => !stranger id :=
    fun t f hid => Table.keep_modify_of_not (by simp [hid]) t f
  cases s with
  | attach id e capacity =>
    refine ⟨?_, by simp [turn]⟩
    simp only [turn, GroupRun.attach, Group.attach, hide, Group.hide,
      hput _ _ hs]
  | operation op =>
    obtain ⟨hgroup, heffects⟩ := Group.perform_of_stranger h r.room hs hout
    have hkeep : ((r.group.perform r.room op).effects.foldl Group.Effect.onOutboxes r.outboxes) =
        r.outboxes := by
      obtain hnone | ⟨d, cause, hone⟩ := heffects
      · rw [hnone]
        rfl
      · rw [hone]
        rfl
    refine ⟨?_, ?_⟩
    · simp only [turn, settle, hide, hgroup, hkeep]
    · show ∀ e ∈ (r.group.perform r.room op).effects.filterMap Group.Effect.event?, isFailure e
      obtain hnone | ⟨d, cause, hone⟩ := heffects
      · simp [hnone]
      · simp [hone, Group.Effect.event?, isFailure]
  | queue id x =>
    refine ⟨?_, by simp [turn]⟩
    simp only [turn, hide, Outboxes.push, hmodify _ _ hs]
  | take id n =>
    refine ⟨?_, by simp [turn]⟩
    simp only [turn, GroupRun.take]
    cases r.outboxes.get? id with
    | none => rfl
    | some o =>
      simp only
      split
      · rfl
      · simp only [hide, hput _ _ hs]
  | closeOutbox id =>
    refine ⟨?_, by simp [turn]⟩
    simp only [turn, GroupRun.closeOutbox, hide, hmodify _ _ hs]

/-! ## Runs -/

/-- What is announced but for failed handshakes. -/
def announcedToAll (ts : List (Step × Turn)) : List Event :=
  (announced ts).filter fun e => !isFailure e

/-- What is announced but for failed handshakes, turn by turn, without the turns in which nothing
is. -/
def announcedByTurn (ts : List (Step × Turn)) : List (List Event) :=
  (ts.map fun t => (t.2.effects.filterMap Group.Effect.event?).filter fun e => !isFailure e).filter
    (!·.isEmpty)

/-- What the steps on others answered, but for the device that is worth dialing. -/
def answersToOthers (stranger : SessionId → Bool) (ts : List (Step × Turn)) :
    List Group.Answer :=
  (ts.filter fun t => !t.1.isOf stranger).map fun t => t.2.answer.withoutHint

theorem flatten_announcedByTurn (ts : List (Step × Turn)) :
    (announcedByTurn ts).flatten = announcedToAll ts := by
  rw [announcedByTurn, List.flatten_filter_not_isEmpty, announcedToAll, announced,
    List.filter_flatMap, List.flatMap_def]

theorem announcedByTurn_cons_of_nil {t : Step × Turn} {ts : List (Step × Turn)}
    (h : ∀ e ∈ t.2.effects.filterMap Group.Effect.event?, isFailure e) :
    announcedByTurn (t :: ts) = announcedByTurn ts := by
  have hnone : (t.2.effects.filterMap Group.Effect.event?).filter (fun e => !isFailure e) = [] :=
    List.filter_eq_nil_iff.2 fun e he => by simp [h e he]
  simp only [announcedByTurn, List.map_cons, hnone, List.filter_cons, List.isEmpty_nil,
    Bool.not_true, Bool.false_eq_true, if_false]

/-- A run shows what the run shows in which nothing happens to strangers. -/
theorem hide_run (h : Group.Outside stranger r.group) {ss : List Step}
    (hs : ∀ s ∈ ss, s.KeepsOut stranger) :
    (r.after ss).hide stranger =
        (r.hide stranger).after (ss.filter fun s => !s.isOf stranger) ∧
      announcedByTurn (r.turns ss) =
        announcedByTurn ((r.hide stranger).turns (ss.filter fun s => !s.isOf stranger)) ∧
      answersToOthers stranger (r.turns ss) =
        answersToOthers stranger
          ((r.hide stranger).turns (ss.filter fun s => !s.isOf stranger)) := by
  -- Both runs go on from groups that differ in strangers only, which `outside_turn` keeps.
  induction ss generalizing r with
  | nil => exact ⟨rfl, rfl, rfl⟩
  | cons s ss ih =>
    have hout := hs s List.mem_cons_self
    obtain ⟨hrun, hevents, hanswers⟩ :=
      ih (outside_turn h hout) fun s' hs' => hs s' (List.mem_cons_of_mem s hs')
    by_cases hof : s.isOf stranger = true
    · -- The hidden run does not have this step, and stays where it is.
      obtain ⟨hsame, hfailures⟩ := hide_turn_of_stranger h hof hout
      have hskip : (s :: ss).filter (fun s => !s.isOf stranger) =
          ss.filter fun s => !s.isOf stranger := by simp [hof]
      rw [hsame] at hrun hevents hanswers
      rw [hskip]
      refine ⟨hrun, ?_, ?_⟩
      · rw [turns, announcedByTurn_cons_of_nil hfailures, hevents]
      · simpa [turns, answersToOthers, hof] using hanswers
    · rw [Bool.not_eq_true] at hof
      have hsame := hide_turn h hof
      have hkept : (s :: ss).filter (fun s => !s.isOf stranger) =
          s :: ss.filter fun s => !s.isOf stranger := by simp [hof]
      rw [hsame.run] at hrun hevents hanswers
      rw [hkept]
      refine ⟨hrun, ?_, ?_⟩
      · simp only [announcedByTurn] at hevents
        simp only [turns, announcedByTurn, List.map_cons, List.filter_cons, hsame.events, hevents]
      · simpa [turns, answersToOthers, hof, hsame.answer] using hanswers

/-! ## The order in which sessions are ended -/

/-- The step without the order in which it ends the sessions, if it ends them all. -/
def Step.unordered : Step → Step
  | .operation (.kickAll _) => .operation (.kickAll [])
  | s => s

theorem Step.eq_of_unordered {s s' : Step} (h : s.unordered = s'.unordered) :
    s = s' ∨
      ∃ order order', s = .operation (.kickAll order) ∧ s' = .operation (.kickAll order') := by
  unfold Step.unordered at h
  split at h
  · split at h
    · exact .inr ⟨_, _, rfl, rfl⟩
    · rename_i hne
      exact absurd h.symm (hne [])
  · rename_i hne
    split at h
    · exact absurd h (hne [])
    · exact .inl h

/-- Two steps that are the same but for the order in which all sessions are ended do the same, and
announce the same in some order. -/
theorem reorder_turn (stranger : SessionId → Bool) (r : GroupRun) {s s' : Step}
    (h : s.unordered = s'.unordered) :
    (r.turn s).run = (r.turn s').run ∧ (r.turn s).effects.Perm (r.turn s').effects ∧
      (r.turn s).answer = (r.turn s').answer ∧ s.isOf stranger = s'.isOf stranger := by
  obtain rfl | ⟨order, order', rfl, rfl⟩ := Step.eq_of_unordered h
  · exact ⟨rfl, .refl _, rfl, rfl⟩
  · obtain ⟨hgroup, heffects⟩ := r.group.kickAll_reorder order order'
    refine ⟨?_, heffects, rfl, rfl⟩
    simp only [turn, settle, Group.perform, Group.Outcome.map, hgroup]
    simp only [Group.kickAll, Group.outboxes_kickEach]

theorem reorder_run (stranger : SessionId → Bool) {ss ss' : List Step}
    (h : ss.map Step.unordered = ss'.map Step.unordered) (r : GroupRun) :
    r.after ss = r.after ss' ∧
      List.Forall₂ List.Perm (announcedByTurn (r.turns ss)) (announcedByTurn (r.turns ss')) ∧
      answersToOthers stranger (r.turns ss) = answersToOthers stranger (r.turns ss') := by
  -- Step by step, because the order in which sessions end may differ in each of the steps.
  induction ss generalizing r ss' with
  | nil =>
    cases ss' with
    | nil => exact ⟨rfl, .nil, rfl⟩
    | cons s' ss' => cases h
  | cons s ss ih =>
    cases ss' with
    | nil => cases h
    | cons s' ss' =>
      obtain ⟨hstep, hsteps⟩ := List.cons.inj h
      obtain ⟨hrun, heffects, hanswer, hof⟩ := reorder_turn stranger r hstep
      obtain ⟨hruns, hevents, hanswers⟩ := ih hsteps (r.turn s).run
      rw [hrun] at hruns hevents hanswers
      have hperm := (heffects.filterMap Group.Effect.event?).filter fun e => !isFailure e
      refine ⟨?_, ?_, ?_⟩
      · rw [after, after, hrun, hruns]
      · simp only [announcedByTurn, turns, List.map_cons, List.filter_cons, ← hrun] at hevents ⊢
        rw [hperm.isEmpty_eq]
        split
        · exact .cons hperm hevents
        · exact hevents
      · simp only [answersToOthers, turns, List.filter_cons, ← hrun, hof] at hanswers ⊢
        split
        · rw [List.map_cons, List.map_cons, hanswer, hanswers]
        · exact hanswers

/-- **Strangers change nothing.** Two runs of a group from the same start that do the same but for
what happens to sessions that are never admitted, and for the order in which all sessions are ended
when they are, end with the same members, discovered devices and history, with the same entry and
the same outbox for every other session. They announce the same turn by turn, but for failed
handshakes and the order in which the members leave when all sessions are ended, and exactly the
same if this order is. What is done to others in both of them is answered alike, but for the device
that is worth dialing. -/
theorem strangers_change_nothing {limit : Nat} (hr : Group.Reachable limit r.group)
    (hstart : ∀ id e, stranger id → r.group.sessions.get? id = some e → e.role = .unauthenticated)
    {as bs : List Step} (ha : ∀ s ∈ as, s.KeepsOut stranger) (hb : ∀ s ∈ bs, s.KeepsOut stranger)
    (hcommon : (as.filter fun s => !s.isOf stranger).map Step.unordered =
      (bs.filter fun s => !s.isOf stranger).map Step.unordered) :
    (r.after as).group.members = (r.after bs).group.members ∧
      (r.after as).group.discovered = (r.after bs).group.discovered ∧
      (r.after as).group.history = (r.after bs).group.history ∧
      (∀ id, stranger id = false →
        (r.after as).group.sessions.get? id = (r.after bs).group.sessions.get? id ∧
        (r.after as).outboxes.get? id = (r.after bs).outboxes.get? id) ∧
      List.Forall₂ List.Perm (announcedByTurn (r.turns as)) (announcedByTurn (r.turns bs)) ∧
      ((as.filter fun s => !s.isOf stranger) = (bs.filter fun s => !s.isOf stranger) →
        announcedToAll (r.turns as) = announcedToAll (r.turns bs)) ∧
      answersToOthers stranger (r.turns as) = answersToOthers stranger (r.turns bs) := by
  have hout : Group.Outside stranger r.group := by
    refine ⟨fun k id hm => ?_, hstart⟩
    obtain ⟨e, he, hrole, -⟩ := (hr.inStep k id).1 hm
    cases hid : stranger id with
    | false => rfl
    | true =>
      rw [hstart id e hid he] at hrole
      cases hrole
  -- Each run is compared with the run without its strangers, and these two have the same steps.
  obtain ⟨haRun, haEvents, haAnswers⟩ := hide_run hout ha
  obtain ⟨hbRun, hbEvents, hbAnswers⟩ := hide_run hout hb
  obtain ⟨hruns, hevents, hanswers⟩ := reorder_run stranger hcommon (r.hide stranger)
  rw [hruns, ← hbRun] at haRun
  have hgroup : (r.after as).group.hide stranger = (r.after bs).group.hide stranger :=
    congrArg group haRun
  have houtboxes : (r.after as).outboxes.keep (fun id => !stranger id) =
      (r.after bs).outboxes.keep fun id => !stranger id := congrArg outboxes haRun
  refine ⟨(congrArg Group.members hgroup :), (congrArg Group.discovered hgroup :),
    (congrArg Group.history hgroup :), fun id hid => ⟨?_, ?_⟩, ?_, fun hsame => ?_, ?_⟩
  · rw [← Group.get?_sessions_hide _ hid, hgroup, Group.get?_sessions_hide _ hid]
  · have hget := congrArg (Table.get? · id) houtboxes
    simpa [Table.get?_keep, hid] using hget
  · rw [haEvents, hbEvents]
    exact hevents
  · rw [← flatten_announcedByTurn, ← flatten_announcedByTurn, haEvents, hbEvents, hsame]
  · rw [haAnswers, hbAnswers, hanswers]

/-- A group with one member, session 2, and a session 3 that nobody has admitted. -/
def besieged : GroupRun :=
  { group := .reconnected, outboxes := Table.empty.put 2 { capacity := 4 } }

/-- The user copies something, between what two strangers do. -/
def siege : List Step :=
  [.operation (.acceptUpdate 3 "text/plain" [1]),
    .attach 4 (Group.dialedEntry Group.neighbour) 4,
    .operation (.publishLocal "text/plain" [7]),
    .operation (.flushed 3 1),
    .operation (.remove 4 (.auth .mismatch))]

/-- What the strangers do between the steps of the user does not show. -/
theorem strangers_change_nothing_siege : Group.Reachable 10 besieged.group ∧
    (besieged.after siege).group.members =
      (besieged.after [.operation (.publishLocal "text/plain" [7])]).group.members ∧
    (besieged.after siege).group.history =
      (besieged.after [.operation (.publishLocal "text/plain" [7])]).group.history ∧
    (besieged.after siege).outboxes.get? 2 =
      (besieged.after [.operation (.publishLocal "text/plain" [7])]).outboxes.get? 2 := by
  have hstart : ∀ id e, decide (2 < id) → besieged.group.sessions.get? id = some e →
      e.role = .unauthenticated := by
    intro id e hid he
    have hmem := Table.mem_entries_iff.2 he
    have hall : ∀ x ∈ besieged.group.sessions.entries, 2 < x.1 → x.2.role = .unauthenticated := by
      decide
    exact hall (id, e) hmem (of_decide_eq_true hid)
  obtain ⟨hmembers, -, hhistory, hothers, -⟩ :=
    @strangers_change_nothing (fun id => decide (2 < id)) besieged 10 Group.reachable_reconnected
      hstart siege [.operation (.publishLocal "text/plain" [7])]
      (by simp [siege, Step.KeepsOut, Group.Operation.KeepsOut, Group.dialedEntry])
      (by simp [Step.KeepsOut, Group.Operation.KeepsOut]) (by decide)
  exact ⟨Group.reachable_reconnected, hmembers, hhistory, (hothers 2 (by decide)).2⟩

end Simulation.GroupRun

end SharedClipboard
