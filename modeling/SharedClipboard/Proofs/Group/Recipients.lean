import SharedClipboard.Proofs.Group.Membership
import Mathlib.Data.List.Nodup

/-!
# Whom an update is sent to

In a group whose members and sessions are in step, an update is sent once to every member session
with room but for the one that it came from (`InStep.mem_recipients`, `InStep.nodup_recipients`).
`frames_accept` is what that means for one session, and `deliveries_accept` counts the frames.
-/

namespace SharedClipboard.Group

variable {g : Group}

theorem mem_memberSessions {id : SessionId} :
    id ∈ g.members.values.map (·.session) ↔ ∃ k, g.memberSession? k = some id := by
  simp only [List.mem_map, Table.mem_values_iff, memberSession?, Option.map_eq_some_iff]
  constructor
  · rintro ⟨m, ⟨k, hk⟩, hm⟩
    exact ⟨k, m, hk, hm⟩
  · rintro ⟨k, m, hk, hm⟩
    exact ⟨m, ⟨k, hk⟩, hm⟩

theorem InStep.nodup_memberSessions (h : g.InStep) : (g.members.values.map (·.session)).Nodup := by
  rw [Table.values, List.map_map]
  refine List.Nodup.map_on (fun x hx y hy hxy => ?_) (List.Nodup.of_map _ g.members.distinct)
  have hx' := Table.mem_entries_iff.1 hx
  have hy' := Table.mem_entries_iff.1 hy
  -- One session stands for one device only, and one device has one member.
  have hadmx := (h x.1 x.2.session).1 (by simp [memberSession?, hx'])
  have hadmy := (h y.1 y.2.session).1 (by simp [memberSession?, hy'])
  rw [show x.2.session = y.2.session from hxy] at hadmx
  have hkey := hadmx.unique hadmy
  rw [hkey, hy'] at hx'
  exact Prod.ext hkey (Option.some.inj hx').symm

theorem InStep.nodup_recipients (h : g.InStep) (room : SessionId → Room)
    (except? : Option SessionId) : (g.recipients room except?).Nodup :=
  h.nodup_memberSessions.filter _

theorem InStep.mem_recipients (h : g.InStep) {room : SessionId → Room}
    {except? : Option SessionId} {id : SessionId} :
    id ∈ g.recipients room except? ↔
      (∃ k, g.memberSession? k = some id) ∧ some id ≠ except? ∧ room id = .free := by
  rw [recipients, List.mem_filter, mem_memberSessions]
  refine and_congr_right fun ⟨k, hk⟩ => ?_
  obtain ⟨e, he, -⟩ := (h k id).1 hk
  simp [Table.contains, he]

/-! ## The frames -/

/-- The frame that an effect puts into the outbox of a session. -/
def Effect.frameFor? (id : SessionId) : Effect → Option Outgoing
  | deliver j x => if id = j then some x else none
  | _ => none

/-- Whether an effect puts a frame into an outbox. -/
def Effect.isDelivery : Effect → Bool
  | deliver _ _ => true
  | _ => false

theorem frames_map_deliver (ids : List SessionId) (hids : ids.Nodup) (x : Outgoing)
    (id : SessionId) :
    (ids.map fun j => Effect.deliver j x).filterMap (Effect.frameFor? id) =
      if id ∈ ids then [x] else [] := by
  induction ids with
  | nil => rfl
  | cons j ids ih =>
    rw [List.nodup_cons] at hids
    rw [List.map_cons, List.filterMap_cons, ih hids.2, Effect.frameFor?]
    by_cases hj : id = j
    · subst hj
      simp [hids.1]
    · simp [hj]

/-- An update puts its frame once into the outbox of a session that it is sent to. -/
theorem frames_accept (h : g.InStep) (room : SessionId → Room) (mime : String)
    (data : Bytes) (origin : Origin) (except? : Option SessionId) (id : SessionId) :
    (g.accept room mime data origin except?).effects.filterMap (Effect.frameFor? id) =
      if id ∈ g.recipients room except? then
        [updateFrame (g.history.next mime data origin)]
      else [] := by
  have hframes := frames_map_deliver _ (h.nodup_recipients room except?)
    (updateFrame (g.history.next mime data origin)) id
  rw [accept, List.filterMap_append]
  exact (congrArg (· ++ []) hframes).trans (List.append_nil _)

theorem deliveries_accept (g : Group) (room : SessionId → Room) (mime : String) (data : Bytes)
    (origin : Origin) (except? : Option SessionId) :
    (g.accept room mime data origin except?).effects.countP Effect.isDelivery =
      (g.recipients room except?).length := by
  have hall : ∀ ids : List SessionId,
      (ids.map fun id => Effect.deliver id (updateFrame (g.history.next mime data origin))).countP
        Effect.isDelivery = ids.length := by
    intro ids
    rw [List.countP_eq_length.2 (by simp [Effect.isDelivery]), List.length_map]
  rw [accept, List.countP_append]
  exact hall _

end SharedClipboard.Group
