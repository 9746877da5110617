import SharedClipboard.Proofs.Group.Log
import SharedClipboard.Proofs.Group.Recipients

/-!
# Where updates are sent

**Theorem (`updates_reach_members_only`).** In every run of a group with its outboxes, an accepted
update puts one frame into the outbox of each member session but the one it came from, if that
outbox is open and not full, and touches no other outbox. Nothing else puts a frame with an update
anywhere, so a session that is not a member, or is not one any more, never gets one; and the numbers
that one session gets only grow.

The frames that a step puts into an outbox are read off the outbox itself (`GroupRun.added`). In a
run in which ids are not used twice (`Regular`) a session that the group has dropped stays dropped,
because a step takes no session up under an id that has an outbox (`Upheld.gone`).
-/

namespace SharedClipboard

namespace Outbox

/-- The outbox is open and not full. -/
def Ready (o : Outbox) : Prop := o.closed = false ∧ o.queue.length < o.capacity

instance (o : Outbox) : Decidable o.Ready := inferInstanceAs (Decidable (_ ∧ _))

theorem room_eq_free {o : Outbox} : o.room = .free ↔ o.Ready := by
  unfold room Ready
  cases o.closed with
  | true => simp
  | false => by_cases h : o.queue.length < o.capacity <;> simp [h]

theorem push_of_ready {o : Outbox} (h : o.Ready) (x : Outgoing) :
    o.push x = { o with queue := o.queue ++ [x] } :=
  if_pos (room_eq_free.2 h)

theorem push_of_not_ready {o : Outbox} (h : ¬ o.Ready) (x : Outgoing) : o.push x = o :=
  if_neg (mt room_eq_free.1 h)

end Outbox

namespace Group

variable {g : Group}

/-- The session is a member session and not the given one, and its outbox has room. -/
def Reaches (g : Group) (source? : Option SessionId) (id : SessionId) (o : Outbox) : Prop :=
  id ∈ g.members.values.map (·.session) ∧ some id ≠ source? ∧ o.Ready

instance (g : Group) (source? : Option SessionId) (id : SessionId) (o : Outbox) :
    Decidable (g.Reaches source? id o) := inferInstanceAs (Decidable (_ ∧ _))

/-! ## Sessions that stay -/

theorem get?_sessions_of_remove {j id : SessionId} {reason : CloseReason} {e : SessionEntry}
    (h : (g.remove j reason).group.sessions.get? id = some e) : g.sessions.get? id = some e := by
  rw [get?_sessions_remove] at h
  split at h
  · cases h
  · exact h

theorem get?_sessions_of_kickEach {ids : List SessionId} {id : SessionId} {e : SessionEntry}
    (h : (g.kickEach ids).group.sessions.get? id = some e) : g.sessions.get? id = some e := by
  induction ids generalizing g with
  | nil => exact h
  | cons j ids ih => exact get?_sessions_of_remove (ih h)

theorem get?_sessions_of_accept {room : SessionId → Room} {mime : String} {data : Bytes}
    {origin : Origin} {except? : Option SessionId} {id : SessionId} {e' : SessionEntry}
    (h : (g.accept room mime data origin except?).group.sessions.get? id = some e') :
    ∃ e, g.sessions.get? id = some e := by
  rw [get?_sessions_accept] at h
  split at h
  · obtain ⟨e, he, -⟩ := Option.map_eq_some_iff.1 h
    exact ⟨e, he⟩
  · exact ⟨e', h⟩

theorem session_promote {j id : SessionId} {e' : SessionEntry}
    (h : (g.promote j).group.sessions.get? id = some e') :
    ∃ e, g.sessions.get? id = some e ∧ e'.inFlight = e.inFlight := by
  obtain ⟨hsame, -⟩ | ⟨e, he, -, -, hsessions, -⟩ := promote_cases g j
  · rw [hsame] at h
    exact ⟨e', h, rfl⟩
  · rw [hsessions] at h
    split at h
    · cases h
    · split at h
      · rename_i hj
        cases h
        exact ⟨e, hj ▸ he, rfl⟩
      · exact ⟨e', h, rfl⟩

/-- The operation processes a report that an update was written. -/
def Operation.isFlushed : Operation → Bool
  | .flushed _ _ => true
  | _ => false

/-- A session that an operation leaves was there before; and unless the operation takes up a
content or processes a report, the same update is under way to it. -/
theorem session_perform {room : SessionId → Room} {op : Operation} {id : SessionId}
    {e' : SessionEntry} (h : (g.perform room op).group.sessions.get? id = some e') :
    ∃ e, g.sessions.get? id = some e ∧ (op.isFlushed = false →
      (g.perform room op).answer.accepted? = none → e'.inFlight = e.inFlight) := by
  -- Only a report and an update that is accepted change what is noted as under way.
  cases op with
  | promote j =>
    obtain ⟨e, he, hsame⟩ := session_promote h
    exact ⟨e, he, fun _ _ => hsame⟩
  | remove j reason => exact ⟨e', get?_sessions_of_remove h, fun _ _ => rfl⟩
  | kickAll order => exact ⟨e', get?_sessions_of_kickEach h, fun _ _ => rfl⟩
  | acceptUpdate j mime data =>
    obtain ⟨hsame, -⟩ | ⟨f, -, -, -, -, htaken⟩ := acceptUpdate_cases g room j mime data
    · replace h : (g.acceptUpdate room j mime data).group.sessions.get? id = some e' := h
      rw [hsame] at h
      exact ⟨e', h, fun _ _ => rfl⟩
    · simp only [perform, htaken] at h ⊢
      obtain ⟨e, he⟩ := get?_sessions_of_accept h
      exact ⟨e, he, fun _ hnone => by cases hnone⟩
  | publishLocal mime data =>
    obtain ⟨-, hsame⟩ | ⟨-, htaken⟩ := publishLocal_cases g room mime data
    · simp only [perform, hsame] at h
      exact ⟨e', h, fun _ _ => rfl⟩
    · simp only [perform, htaken] at h ⊢
      obtain ⟨e, he⟩ := get?_sessions_of_accept h
      exact ⟨e, he, fun _ hnone => by cases hnone⟩
  | flushed j seq =>
    replace h : (g.flushed j seq).sessions.get? id = some e' := h
    rw [get?_sessions_flushed] at h
    split at h
    · obtain ⟨e, he, -⟩ := Option.map_eq_some_iff.1 h
      exact ⟨e, he, fun hno => by cases hno⟩
    · exact ⟨e', h, fun _ _ => rfl⟩
  | discovery me port machine e =>
    replace h : (g.onDiscovery me port machine e).group.sessions.get? id = some e' := h
    obtain ⟨t, ht⟩ := onDiscovery_group g me port machine e
    rw [ht] at h
    exact ⟨e', h, fun _ _ => rfl⟩

/-! ## What effects do to the outboxes -/

theorem foldl_onOutboxes_of_quiet {es : List Effect} (h : ∀ x ∈ es, x.spreads = false)
    (o : Outboxes) : es.foldl Effect.onOutboxes o = o := by
  induction es with
  | nil => rfl
  | cons x es ih =>
    have hx := h x List.mem_cons_self
    rw [List.foldl_cons]
    cases x with
    | deliver _ _ => cases hx
    | announce _ | kick _ => exact ih fun y hy => h y (List.mem_cons_of_mem _ hy)

theorem get?_foldl_deliver {ids : List SessionId} (hids : ids.Nodup) (x : Outgoing) (o : Outboxes)
    (id : SessionId) : ((ids.map fun j => Effect.deliver j x).foldl Effect.onOutboxes o).get? id =
      if id ∈ ids then (o.get? id).map (·.push x) else o.get? id := by
  induction ids generalizing o with
  | nil => rfl
  | cons j ids ih =>
    rw [List.nodup_cons] at hids
    rw [List.map_cons, List.foldl_cons, ih hids.2, Effect.onOutboxes, Outboxes.push,
      Table.get?_modify]
    by_cases hj : j = id
    · subst hj
      simp [hids.1]
    · simp [hj, Ne.symm hj]

end Group

namespace Simulation.GroupRun

open SharedClipboard.Group (Reaches updateFrame)

/-! ## Regular runs -/

/-- The step takes up a session only under an id that was never used, and not as a member, and what
sessions put into their outboxes themselves carries no update. -/
def Step.Fits (r : GroupRun) : Step → Prop
  | .attach id e _ => r.outboxes.get? id = none ∧ e.role = .unauthenticated ∧ e.inFlight = none
  | .queue _ x => x.seq = none
  | _ => True

/-- The step processes a report that an update was written. -/
def Step.isReport : Step → Bool
  | .operation op => op.isFlushed
  | _ => false

/-- Every step fits where it is made. -/
def Regular (r : GroupRun) : List Step → Prop
  | [] => True
  | s :: ss => s.Fits r ∧ (r.turn s).run.Regular ss

/-- Members and sessions are in step, and every session has an outbox. -/
structure Upheld (r : GroupRun) : Prop where
  inStep : r.group.InStep
  known : ∀ id, r.outboxes.get? id = none → r.group.sessions.get? id = none

variable {r : GroupRun} {s : Step} {limit : Nat} {id : SessionId}

theorem upheld_fresh (limit : Nat) : (fresh limit).Upheld :=
  ⟨Group.inStep_fresh limit, fun _ _ => rfl⟩

theorem foldl_onOutboxes_eq_none (es : List Group.Effect) (o : Outboxes) :
    (es.foldl Group.Effect.onOutboxes o).get? id = none ↔ o.get? id = none := by
  induction es generalizing o with
  | nil => exact Iff.rfl
  | cons x es ih =>
    rw [List.foldl_cons, ih]
    cases x with
    | announce _ | kick _ => exact Iff.rfl
    | deliver j x =>
      rw [Group.Effect.onOutboxes, Outboxes.push, Table.get?_modify]
      split
      · exact Option.map_eq_none_iff
      · exact Iff.rfl

theorem get?_outboxes_attach (r : GroupRun) (j : SessionId) (e : SessionEntry) (c : Nat)
    (id : SessionId) : (r.turn (.attach j e c)).run.outboxes.get? id =
      if j = id then some { capacity := c } else r.outboxes.get? id :=
  Table.get?_put r.outboxes j id _

theorem get?_outboxes_queue (r : GroupRun) (j : SessionId) (x : Outgoing) (id : SessionId) :
    (r.turn (.queue j x)).run.outboxes.get? id =
      if j = id then (r.outboxes.get? id).map (·.push x) else r.outboxes.get? id :=
  Table.get?_modify r.outboxes j id _

theorem get?_outboxes_closeOutbox (r : GroupRun) (j id : SessionId) :
    (r.turn (.closeOutbox j)).run.outboxes.get? id =
      if j = id then (r.outboxes.get? id).map Outbox.close else r.outboxes.get? id :=
  Table.get?_modify r.outboxes j id _

/-- A step opens no outbox but the one of the session that it takes up. -/
theorem outboxes_turn_eq_none (hs : ∀ e c, s ≠ .attach id e c) :
    (r.turn s).run.outboxes.get? id = none ↔ r.outboxes.get? id = none := by
  cases s with
  | attach j e c =>
    have hj : j ≠ id := fun hj => hs e c (hj ▸ rfl)
    rw [get?_outboxes_attach, if_neg hj]
  | operation op => exact foldl_onOutboxes_eq_none _ _
  | queue j x =>
    rw [get?_outboxes_queue]
    split
    · exact Option.map_eq_none_iff
    · exact Iff.rfl
  | closeOutbox j =>
    rw [get?_outboxes_closeOutbox]
    split
    · exact Option.map_eq_none_iff
    · exact Iff.rfl
  | take j n =>
    show (r.take j (some n)).2.outboxes.get? id = none ↔ _
    unfold GroupRun.take
    split
    · rename_i o ho
      split
      · exact Iff.rfl
      · show (r.outboxes.put j _).get? id = none ↔ _
        rw [Table.get?_put]
        split
        · rename_i hj
          rw [← hj, ho]
          simp
        · exact Iff.rfl
    · exact Iff.rfl

/-- An outbox that a step opens is empty. -/
theorem outbox_new {o' : Outbox} (ho : r.outboxes.get? id = none)
    (ho' : (r.turn s).run.outboxes.get? id = some o') : ∃ capacity, o' = { capacity } := by
  by_cases hnew : ∃ e c, s = .attach id e c
  · obtain ⟨e, c, rfl⟩ := hnew
    rw [get?_outboxes_attach, if_pos rfl] at ho'
    cases ho'
    exact ⟨c, rfl⟩
  · have hnone := (outboxes_turn_eq_none fun e c heq => hnew ⟨e, c, heq⟩).2 ho
    rw [ho'] at hnone
    cases hnone

/-- A session that a step leaves was there before, if the step does not take it up; and unless a
content is accepted or a report processed, the same update is under way to it. -/
theorem session_turn (hs : ∀ e c, s ≠ .attach id e c) {e' : SessionEntry}
    (h : (r.turn s).run.group.sessions.get? id = some e') :
    ∃ e, r.group.sessions.get? id = some e ∧ (s.isReport = false → r.accepted? s = none →
      e'.inFlight = e.inFlight) := by
  cases s with
  | attach j e c =>
    have hj : j ≠ id := fun hj => hs e c (hj ▸ rfl)
    replace h : (r.group.attach j e).sessions.get? id = some e' := h
    rw [Group.get?_sessions_attach, if_neg hj] at h
    exact ⟨e', h, fun _ _ => rfl⟩
  | operation op =>
    obtain ⟨e, he, hsame⟩ := Group.session_perform h
    refine ⟨e, he, fun hreport hnone => hsame hreport ?_⟩
    obtain ⟨mime, data, origin, except?, htakes⟩ | ⟨-, -, hno⟩ :=
      Group.takes_or_keeps r.group r.room op
    · obtain ⟨-, -, hanswer, -⟩ := Group.perform_of_takes htakes r.room
      simp only [accepted?, turn, hanswer, htakes.content.1, Option.bind_some,
        Option.map_some] at hnone
      cases hnone
    · exact hno
  | queue j x => exact ⟨e', h, fun _ _ => rfl⟩
  | closeOutbox j => exact ⟨e', h, fun _ _ => rfl⟩
  | take j n =>
    replace h : (r.take j (some n)).2.group.sessions.get? id = some e' := h
    rw [group_take] at h
    exact ⟨e', h, fun _ _ => rfl⟩

/-- A step brings no session back but the one that it takes up. -/
theorem sessions_turn_of_none (hs : ∀ e c, s ≠ .attach id e c)
    (h : r.group.sessions.get? id = none) : (r.turn s).run.group.sessions.get? id = none := by
  rw [Option.eq_none_iff_forall_ne_some]
  intro e' he'
  obtain ⟨e, he, -⟩ := session_turn hs he'
  rw [h] at he
  cases he

theorem Upheld.turn (h : r.Upheld) (hs : s.Fits r) : (r.turn s).run.Upheld where
  inStep := by
    cases s with
    | attach j e c => exact h.inStep.attach (h.known j hs.1) hs.2.1
    | operation op => exact Group.inStep_perform h.inStep r.room op
    | queue j x => exact h.inStep
    | closeOutbox j => exact h.inStep
    | take j n =>
      show (r.take j (some n)).2.group.InStep
      rw [group_take]
      exact h.inStep
  known id hid := by
    by_cases hnew : ∃ e c, s = .attach id e c
    · obtain ⟨e, c, rfl⟩ := hnew
      rw [get?_outboxes_attach, if_pos rfl] at hid
      cases hid
    · have hother : ∀ e c, s ≠ .attach id e c := fun e c heq => hnew ⟨e, c, heq⟩
      exact sessions_turn_of_none hother (h.known id ((outboxes_turn_eq_none hother).1 hid))

theorem Upheld.run (h : r.Upheld) {ss : List Step} (hss : r.Regular ss) :
    (r.after ss).Upheld := by
  induction ss generalizing r with
  | nil => exact h
  | cons s ss ih => exact ih (h.turn hss.1) hss.2

/-! ## The frames that a step adds -/

/-- The frames that wait in the outbox of a session. -/
def waiting (r : GroupRun) (id : SessionId) : List Outgoing :=
  ((r.outboxes.get? id).map (·.queue)).getD []

/-- The frames that a step puts into the outbox of a session. -/
def added (r : GroupRun) (s : Step) (id : SessionId) : List Outgoing :=
  ((r.turn s).run.waiting id).drop (r.waiting id).length

def queuedTo (r : GroupRun) (id : SessionId) : List Step → List Outgoing
  | [] => []
  | s :: ss => r.added s id ++ (r.turn s).run.queuedTo id ss

/-- The numbers of the updates that some frames carry. -/
def numbers (xs : List Outgoing) : List Nat := xs.filterMap (·.seq)

@[simp] theorem numbers_append (xs ys : List Outgoing) :
    numbers (xs ++ ys) = numbers xs ++ numbers ys := List.filterMap_append

theorem added_of_outboxes_eq (h : (r.turn s).run.outboxes.get? id = r.outboxes.get? id) :
    r.added s id = [] := by
  rw [added, waiting, waiting, h, List.drop_length]

theorem added_of_none (ho : r.outboxes.get? id = none) : r.added s id = [] := by
  have hempty : (r.turn s).run.waiting id = [] := by
    cases ho' : (r.turn s).run.outboxes.get? id with
    | none =>
      rw [waiting, ho']
      rfl
    | some o' =>
      obtain ⟨capacity, hnew⟩ := outbox_new ho ho'
      rw [waiting, ho', hnew]
      rfl
  rw [added, hempty]
  exact List.drop_nil

theorem added_of_append {o : Outbox} {xs : List Outgoing} (ho : r.outboxes.get? id = some o)
    (h : (r.turn s).run.outboxes.get? id = some { o with queue := o.queue ++ xs }) :
    r.added s id = xs := by
  rw [added, waiting, waiting, h, ho]
  simp

theorem added_of_close {o : Outbox} (h : (r.turn s).run.outboxes.get? id = some o.close) :
    r.added s id = [] := by
  rw [added, waiting, waiting, h]
  exact List.drop_nil

theorem added_of_shorter (h : ((r.turn s).run.waiting id).length ≤ (r.waiting id).length) :
    r.added s id = [] :=
  List.drop_eq_nil_of_le h

/-- The sessions that an update is sent to are those whose outboxes it reaches. -/
theorem mem_recipients (h : r.Upheld) {except? : Option SessionId} :
    id ∈ r.group.recipients r.room except? ↔
      ∃ o, r.outboxes.get? id = some o ∧ Reaches r.group except? id o := by
  have hfree : r.room id = .free ↔ ∃ o, r.outboxes.get? id = some o ∧ o.Ready := by
    rw [room, Outboxes.room]
    cases r.outboxes.get? id with
    | none => simp
    | some o => simp [Outbox.room_eq_free]
  rw [h.inStep.mem_recipients, hfree, ← Group.mem_memberSessions]
  constructor
  · rintro ⟨hmem, hne, o, ho, hready⟩
    exact ⟨o, ho, hmem, hne, hready⟩
  · rintro ⟨o, ho, hmem, hne, hready⟩
    exact ⟨hmem, hne, o, ho, hready⟩

theorem mem_recipients_of_some (h : r.Upheld) {except? : Option SessionId} {o : Outbox}
    (ho : r.outboxes.get? id = some o) :
    id ∈ r.group.recipients r.room except? ↔ Reaches r.group except? id o := by
  rw [mem_recipients h, ho]
  constructor
  · rintro ⟨_, ⟨⟩, hr⟩
    exact hr
  · exact fun hr => ⟨o, rfl, hr⟩

theorem not_mem_recipients_of_none (h : r.Upheld) {except? : Option SessionId}
    (ho : r.outboxes.get? id = none) : id ∉ r.group.recipients r.room except? := by
  rw [mem_recipients h, ho]
  rintro ⟨_, ⟨⟩, -⟩

/-- An accepted update goes to the outboxes that it reaches and touches no other. -/
theorem outboxes_accepted (h : r.Upheld) {u : Snapshot} (hu : r.accepted? s = some u)
    (id : SessionId) : (r.turn s).run.outboxes.get? id = (r.outboxes.get? id).map fun o =>
      if Reaches r.group s.source? id o then { o with queue := o.queue ++ [updateFrame u] }
      else o := by
  obtain ⟨mime, data, origin, -, htaken, hrun, -⟩ | ⟨hnone, -⟩ := turn_cases r s
  · rw [hu] at htaken
    cases htaken
    have hsplit : (r.settle (r.group.accept r.room mime data origin s.source?)).run.outboxes =
        ((r.group.recipients r.room s.source?).map fun j => Group.Effect.deliver j
          (updateFrame (r.group.history.next mime data origin))).foldl
            Group.Effect.onOutboxes r.outboxes := by
      rw [settle, Group.accept, List.foldl_append]
      rfl
    rw [hrun, hsplit, Group.get?_foldl_deliver (h.inStep.nodup_recipients _ _)]
    cases ho : r.outboxes.get? id with
    | none => simp
    | some o =>
      by_cases hr : Reaches r.group s.source? id o
      · rw [if_pos ((mem_recipients_of_some h ho).2 hr), Option.map_some, Option.map_some,
          if_pos hr, Outbox.push_of_ready hr.2.2]
      · rw [if_neg (mt (mem_recipients_of_some h ho).1 hr), Option.map_some, if_neg hr]
  · rw [hu] at hnone
    cases hnone

/-- A step that makes the group accept nothing adds no update to an outbox. -/
theorem numbers_added_of_none (hs : s.Fits r) (hnone : r.accepted? s = none)
    (hquiet : ∀ x ∈ (r.turn s).effects, x.spreads = false) (id : SessionId) :
    numbers (r.added s id) = [] := by
  -- A step is harmless if it leaves the outbox of the session alone.
  have hsame : (r.turn s).run.outboxes.get? id = r.outboxes.get? id →
      numbers (r.added s id) = [] := fun h => by rw [added_of_outboxes_eq h]; rfl
  cases ho : r.outboxes.get? id with
  | none =>
    rw [added_of_none ho]
    rfl
  | some o =>
    cases s with
    | attach j e c =>
      have hj : j ≠ id := by
        rintro rfl
        rw [hs.1] at ho
        cases ho
      exact hsame (by rw [get?_outboxes_attach, if_neg hj])
    | operation op =>
      have hkept : (r.turn (.operation op)).run.outboxes = r.outboxes :=
        Group.foldl_onOutboxes_of_quiet hquiet r.outboxes
      exact hsame (by rw [hkept])
    | queue j x =>
      by_cases hj : j = id
      · have hget := get?_outboxes_queue r j x id
        rw [if_pos hj, ho, Option.map_some] at hget
        by_cases hready : o.Ready
        · -- What the session puts into its outbox itself carries no update.
          rw [Outbox.push_of_ready hready] at hget
          have hplain : x.seq = none := hs
          rw [added_of_append ho hget, numbers, List.filterMap_cons, hplain, List.filterMap_nil]
        · rw [Outbox.push_of_not_ready hready, ← ho] at hget
          exact hsame hget
      · exact hsame (by rw [get?_outboxes_queue, if_neg hj])
    | take j n =>
      suffices hle : ((r.turn (.take j n)).run.waiting id).length ≤ (r.waiting id).length by
        rw [added_of_shorter hle]
        rfl
      show ((r.take j (some n)).2.waiting id).length ≤ _
      unfold GroupRun.take
      split
      · rename_i o ho
        split
        · exact Nat.le_refl _
        · show ((((r.outboxes.put j _).get? id).map _).getD []).length ≤ _
          rw [Table.get?_put]
          split
          · rename_i hj
            rw [waiting, ← hj, ho]
            simp [Outbox.take]
          · exact Nat.le_refl _
      · exact Nat.le_refl _
    | closeOutbox j =>
      by_cases hj : j = id
      · have hget := get?_outboxes_closeOutbox r j id
        rw [if_pos hj, ho, Option.map_some] at hget
        rw [added_of_close hget]
        rfl
      · exact hsame (by rw [get?_outboxes_closeOutbox, if_neg hj])

/-- An accepted update adds its number to the outboxes that it is sent to. -/
theorem numbers_added_of_accepted (h : r.Upheld) {u : Snapshot} (hu : r.accepted? s = some u)
    (id : SessionId) : numbers (r.added s id) =
      if id ∈ r.group.recipients r.room s.source? then [u.seq] else [] := by
  have hget := outboxes_accepted h hu id
  cases ho : r.outboxes.get? id with
  | none =>
    rw [if_neg (not_mem_recipients_of_none h ho), added_of_none ho]
    rfl
  | some o =>
    rw [ho, Option.map_some] at hget
    by_cases hr : Reaches r.group s.source? id o
    · rw [if_pos hr] at hget
      rw [if_pos ((mem_recipients_of_some h ho).2 hr), added_of_append ho hget]
      rfl
    · rw [if_neg hr, ← ho] at hget
      rw [if_neg (mt (mem_recipients_of_some h ho).1 hr), added_of_outboxes_eq hget]
      rfl

/-- The numbers that a step adds to an outbox: none, or the number of the update that the step
makes the group accept, if the update reaches the outbox. -/
theorem numbers_added (h : r.Upheld) (hs : s.Fits r) (id : SessionId) :
    numbers (r.added s id) = [] ∨ ∃ u o, r.accepted? s = some u ∧
      r.outboxes.get? id = some o ∧ Reaches r.group s.source? id o ∧
      numbers (r.added s id) = [u.seq] := by
  obtain ⟨mime, data, origin, -, htaken, -⟩ | ⟨hnone, -, hquiet⟩ := turn_cases r s
  · have hnumbers := numbers_added_of_accepted h htaken id
    split at hnumbers
    · rename_i hmem
      obtain ⟨o, ho, hr⟩ := (mem_recipients h).1 hmem
      exact .inr ⟨_, o, htaken, ho, hr, hnumbers⟩
    · exact .inl hnumbers
  · exact .inl (numbers_added_of_none hs hnone hquiet id)

/-! ## Who gets an update -/

/-- A session whose outbox an update reaches is authenticated, and a member session. -/
theorem Upheld.member (h : r.Upheld) {source? : Option SessionId} {o : Outbox}
    (hr : Reaches r.group source? id o) : ∃ e, r.group.sessions.get? id = some e ∧
      e.role = .authenticated ∧ r.group.memberSession? e.device.identity = some id := by
  obtain ⟨k, hk⟩ := Group.mem_memberSessions.1 hr.1
  obtain ⟨e, he, hrole, rfl⟩ := (h.inStep k id).1 hk
  exact ⟨e, he, hrole, hk⟩

/-- A session that the group has dropped gets no update any more. -/
theorem Upheld.gone (h : r.Upheld) (hused : r.outboxes.get? id ≠ none)
    (hgone : r.group.sessions.get? id = none) {ss : List Step} (hss : r.Regular ss) :
    numbers (r.queuedTo id ss) = [] := by
  -- A session never comes back under its number, because a new one needs an unused number.
  induction ss generalizing r with
  | nil => rfl
  | cons s ss ih =>
    have hother : ∀ e c, s ≠ .attach id e c := by
      rintro e c rfl
      exact hused hss.1.1
    have hrest := ih (h.turn hss.1) (mt (outboxes_turn_eq_none hother).1 hused)
      (sessions_turn_of_none hother hgone) hss.2
    have hnow : numbers (r.added s id) = [] := by
      obtain hnone | ⟨u, o, -, -, hr, -⟩ := numbers_added h hss.1 id
      · exact hnone
      · obtain ⟨e, he, -⟩ := h.member hr
        rw [hgone] at he
        cases he
    rw [queuedTo, numbers_append, hnow, hrest]
    rfl

/-! ## Growing numbers -/

theorem seq_accepted {u : Snapshot} (hu : r.accepted? s = some u) :
    u.seq = r.group.history.nextSeq ∧
      (r.turn s).run.group.history.nextSeq = r.group.history.nextSeq + 1 := by
  obtain ⟨mime, data, origin, -, htaken, hrun, -⟩ | ⟨hnone, -⟩ := turn_cases r s
  · rw [hu] at htaken
    cases htaken
    rw [hrun]
    exact ⟨rfl, rfl⟩
  · rw [hu] at hnone
    cases hnone

theorem nextSeq_turn_le (r : GroupRun) (s : Step) :
    r.group.history.nextSeq ≤ (r.turn s).run.group.history.nextSeq := by
  obtain ⟨mime, data, origin, -, htaken, -⟩ | ⟨-, hsame, -⟩ := turn_cases r s
  · rw [(seq_accepted htaken).2]
    exact Nat.le_succ _
  · rw [hsame]

/-- The numbers that a session gets grow, from the next number on. -/
theorem numbers_queuedTo (h : r.Upheld) (id : SessionId) {ss : List Step} (hss : r.Regular ss) :
    (∀ q ∈ numbers (r.queuedTo id ss), r.group.history.nextSeq ≤ q) ∧
      (numbers (r.queuedTo id ss)).Pairwise (· < ·) := by
  -- The bound carries the induction: whatever comes later has a number that is not given yet.
  induction ss generalizing r with
  | nil => exact ⟨by simp [queuedTo, numbers], .nil⟩
  | cons s ss ih =>
    obtain ⟨hle, hgrow⟩ := ih (h.turn hss.1) hss.2
    have hmono := nextSeq_turn_le r s
    rw [queuedTo, numbers_append]
    obtain hnone | ⟨u, o, hu, -, -, hone⟩ := numbers_added h hss.1 id
    · rw [hnone, List.nil_append]
      exact ⟨fun q hq => hmono.trans (hle q hq), hgrow⟩
    · obtain ⟨hseq, hnext⟩ := seq_accepted hu
      rw [hone, hseq, List.singleton_append]
      refine ⟨fun q hq => ?_, List.pairwise_cons.2 ⟨fun q hq => ?_, hgrow⟩⟩
      · rw [List.mem_cons] at hq
        rcases hq with rfl | hq
        · exact Nat.le_refl _
        · exact hmono.trans (hle q hq)
      · have hbound := hle q hq
        omega

/-! ## Counting -/

/-- As many sessions get an update as there are outboxes that it reaches. -/
theorem length_recipients (h : r.Upheld) (except? : Option SessionId) :
    (r.group.recipients r.room except?).length =
      r.outboxes.entries.countP fun x => Reaches r.group except? x.1 x.2 := by
  rw [List.countP_eq_length_filter, ← List.length_map Prod.fst]
  refine (List.Perm.length_eq ((List.perm_ext_iff_of_nodup
    (h.inStep.nodup_recipients r.room except?)
    (r.outboxes.distinct.sublist (List.filter_sublist.map _))).2 fun id => ?_))
  rw [mem_recipients h]
  simp only [List.mem_map, List.mem_filter, decide_eq_true_eq, Prod.exists, exists_and_right,
    exists_eq_right, Table.mem_entries_iff]

theorem recipients_reported (h : r.Upheld) {seq n : Nat}
    (hs : (r.turn s).answer = .update (.accepted seq n)) :
    n = r.outboxes.entries.countP fun x => Reaches r.group s.source? x.1 x.2 := by
  cases s with
  | operation op =>
    cases op with
    | acceptUpdate j mime data =>
      have hanswer : (r.group.acceptUpdate r.room j mime data).answer = .accepted seq n :=
        Group.Answer.update.inj hs
      obtain ⟨-, -, hrefused⟩ | ⟨e, -, -, -, -, htaken⟩ :=
        Group.acceptUpdate_cases r.group r.room j mime data
      · rw [hanswer] at hrefused
        cases hrefused
      · rw [htaken] at hanswer
        cases hanswer
        exact length_recipients h (some j)
    | promote _ | remove _ _ | kickAll _ | publishLocal _ _ | flushed _ _ | discovery _ _ _ _ =>
      cases hs
  | attach _ _ _ | queue _ _ | take _ _ | closeOutbox _ => cases hs

/-! ## Every run -/

/-- **Delivery.** Whatever a group has been through, an update that it accepts puts one frame, the
encoding of its content with its number, into the outbox of each member session but the one that it
came from, if the outbox is open and not full, and touches no other outbox; the number of sessions
that is reported for it is the number of those outboxes. A frame with an update is put only into
the outbox of a session that is authenticated and a member session, and never into that of a session
that the group has dropped. The numbers that one session gets grow. -/
theorem updates_reach_members_only (limit : Nat) {before : List Step}
    (hbefore : (fresh limit).Regular before) {r : GroupRun}
    (hr : (fresh limit).after before = r) :
    (∀ s u, r.accepted? s = some u →
      (∀ id, (r.turn s).run.outboxes.get? id = (r.outboxes.get? id).map fun o =>
        if Reaches r.group s.source? id o then
          { o with queue := o.queue ++
            [{ frame := (Packet.syncRequest u.mime u.data).encode, seq := some u.seq }] }
        else o) ∧
      ∀ seq n, (r.turn s).answer = .update (.accepted seq n) →
        n = r.outboxes.entries.countP fun x => Reaches r.group s.source? x.1 x.2) ∧
      (∀ s id x, s.Fits r → x ∈ r.added s id → x.seq.isSome = true →
        ∃ e, r.group.sessions.get? id = some e ∧ e.role = .authenticated ∧
          r.group.memberSession? e.device.identity = some id) ∧
      (∀ id after, r.outboxes.get? id ≠ none → r.group.sessions.get? id = none →
        r.Regular after → numbers (r.queuedTo id after) = []) ∧
      ∀ id, (numbers ((fresh limit).queuedTo id before)).Pairwise (· < ·) := by
  have h : r.Upheld := hr ▸ (upheld_fresh limit).run hbefore
  refine ⟨fun s u hu => ⟨outboxes_accepted h hu, fun seq n => recipients_reported h⟩,
    fun s id x hs hx hsome => ?_, fun id after hused hgone hafter => h.gone hused hgone hafter,
    fun id => (numbers_queuedTo (upheld_fresh limit) id hbefore).2⟩
  obtain hnone | ⟨u, o, -, -, hreach, -⟩ := numbers_added h hs id
  · obtain ⟨seq, hseq⟩ := Option.isSome_iff_exists.1 hsome
    have hmem : seq ∈ numbers (r.added s id) := List.mem_filterMap.2 ⟨x, hx, hseq⟩
    rw [hnone] at hmem
    cases hmem
  · exact h.member hreach

/-- Three devices join, the third of them twice, and a guest is let in but not admitted. The user
copies something, which only the second session has written; so the outbox of the first, which
holds one frame, is full. -/
def fullHouse : List Step :=
  [.attach 1 (Group.dialedEntry Group.neighbour) 1, .operation (.promote 1),
    .attach 2 (Group.dialedEntry { Group.neighbour with name := "desk" }) 4,
    .operation (.promote 2),
    .attach 3 (Group.dialedEntry { Group.neighbour with name := "phone" }) 4,
    .operation (.promote 3),
    .attach 4 (Group.dialedEntry { Group.neighbour with name := "phone" }) 4,
    .operation (.promote 4),
    .attach 5 (Group.dialedEntry { Group.neighbour with name := "guest" }) 4,
    .queue 5 (.control .ping),
    .operation (.publishLocal "text/plain" [1]), .take 2 1, .operation (.flushed 2 1)]

/-- The second session sends an update. -/
def deskCopies : Step := .operation (.acceptUpdate 2 "text/plain" [2])

/-- The update goes to the one member session with room: not to the full one, not back, not to the
session that was replaced, and not to the guest. -/
theorem updates_reach_members_only_fullHouse : (fresh 10).Regular fullHouse ∧
    (∃ r u o, (fresh 10).after fullHouse = r ∧ r.accepted? deskCopies = some u ∧
      (r.turn deskCopies).answer = .update (.accepted 2 1) ∧
      r.outboxes.get? 4 = some o ∧
      (r.turn deskCopies).run.outboxes.get? 4 =
        some { o with queue := o.queue ++ [Group.updateFrame u] } ∧
      (∀ id ∈ [1, 2, 3, 5], (r.turn deskCopies).run.outboxes.get? id = r.outboxes.get? id) ∧
      (∃ e, r.group.sessions.get? 4 = some e ∧ e.role = .authenticated) ∧
      r.group.sessions.get? 3 = none ∧ numbers (r.queuedTo 3 [deskCopies]) = []) ∧
    (numbers ((fresh 10).queuedTo 4 fullHouse)).Pairwise (· < ·) := by
  have hregular : (fresh 10).Regular fullHouse :=
    ⟨⟨rfl, rfl, rfl⟩, trivial, ⟨rfl, rfl, rfl⟩, trivial, ⟨rfl, rfl, rfl⟩, trivial,
      ⟨rfl, rfl, rfl⟩, trivial, ⟨rfl, rfl, rfl⟩, rfl, trivial, trivial, trivial, trivial⟩
  obtain ⟨hupdate, hmember, hgone, hgrow⟩ := updates_reach_members_only 10 hregular rfl
  obtain ⟨haccepted, hopen, hanswer, hreach, hused, hdropped⟩ :
      (((fresh 10).after fullHouse).accepted? deskCopies).isSome = true ∧
      (((fresh 10).after fullHouse).outboxes.get? 4).isSome = true ∧
      (((fresh 10).after fullHouse).turn deskCopies).answer = .update (.accepted 2 1) ∧
      (∀ x ∈ ((fresh 10).after fullHouse).outboxes.entries,
        Reaches ((fresh 10).after fullHouse).group deskCopies.source? x.1 x.2 ↔ x.1 = 4) ∧
      ((fresh 10).after fullHouse).outboxes.get? 3 ≠ none ∧
      ((fresh 10).after fullHouse).group.sessions.get? 3 = none := by decide +kernel
  obtain ⟨u, hu⟩ := Option.isSome_iff_exists.1 haccepted
  obtain ⟨o, ho⟩ := Option.isSome_iff_exists.1 hopen
  obtain ⟨hdelivered, -⟩ := hupdate deskCopies u hu
  have hfree := (hreach _ (Table.mem_entries_iff.2 ho)).2 rfl
  have hmissed : ∀ id ∈ [1, 2, 3, 5],
      (((fresh 10).after fullHouse).turn deskCopies).run.outboxes.get? id =
        ((fresh 10).after fullHouse).outboxes.get? id := by
    intro id hid
    have hne : id ≠ 4 := by
      rintro rfl
      exact absurd hid (by decide)
    rw [hdelivered id]
    cases hid : ((fresh 10).after fullHouse).outboxes.get? id with
    | none => rfl
    | some o =>
      rw [Option.map_some, if_neg (mt (hreach _ (Table.mem_entries_iff.2 hid)).1 hne)]
  have hgot := hdelivered 4
  rw [ho, Option.map_some, if_pos hfree] at hgot
  have hframe : updateFrame u ∈ ((fresh 10).after fullHouse).added deskCopies 4 := by
    rw [added, waiting, waiting, hgot, ho]
    simp [updateFrame]
  obtain ⟨e, he, hrole, -⟩ := hmember deskCopies 4 _ trivial hframe rfl
  refine ⟨hregular, ⟨_, u, o, rfl, hu, hanswer, ho, hgot, hmissed, ⟨e, he, hrole⟩, hdropped,
    hgone 3 [deskCopies] hused hdropped ⟨trivial, trivial⟩⟩, hgrow 4⟩

end Simulation.GroupRun

end SharedClipboard
