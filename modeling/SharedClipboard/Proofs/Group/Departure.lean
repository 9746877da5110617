import SharedClipboard.Proofs.Group.Delivery
import SharedClipboard.Proofs.Group.Membership

/-!
# Who leaves the group

A session leaves the group when its end is reported (`Group.remove`), when another session takes its
place as a member (`Group.promote`), or when all sessions are ended (`Group.kickAll`). In the last
two cases the group asks for the session to be ended (`kept_or_kicked`); in the first case it has
ended.

A device leaves the group with its member session, and that is announced: of the members there were,
those that are left and those that were announced to have left are all, and each counts once
(`members_kickEach`).
-/

namespace SharedClipboard

namespace Table

variable {κ ν : Type} [DecidableEq κ] {t : Table κ ν} {k : κ}

theorem mem_keys : k ∈ t.keys ↔ t.contains k = true := by
  rw [contains, Option.isSome_iff_exists]
  constructor
  · intro hk
    obtain ⟨⟨k', v⟩, hmem, rfl⟩ := List.mem_map.1 hk
    exact ⟨v, mem_entries_iff.1 hmem⟩
  · rintro ⟨v, hv⟩
    exact List.mem_map.2 ⟨(k, v), mem_entries_iff.2 hv, rfl⟩

theorem keys_eq_nil (h : ∀ k, t.contains k = false) : t.keys = [] := by
  refine List.eq_nil_iff_forall_not_mem.2 fun k hk => ?_
  rw [mem_keys, h] at hk
  cases hk

/-- The keys are the one that is taken out and those that stay. -/
theorem keys_perm_erase (h : t.contains k = true) : t.keys.Perm (k :: (t.erase k).keys) := by
  obtain ⟨v, hv⟩ := Option.isSome_iff_exists.1 h
  exact (entries_perm_erase hv).map (·.1)

end Table

namespace Group

variable {g : Group} {room : SessionId → Room} {op : Operation} {id j : SessionId}

/-! ## Sessions -/

/-- A session that is replaced is ended. -/
theorem kicked_of_promote (h : g.sessions.contains id = true)
    (hgone : (g.promote j).group.sessions.contains id = false) :
    .kick id ∈ (g.promote j).effects := by
  cases he : g.sessions.get? j with
  | none => simp [promote, he, h] at hgone
  | some e =>
    by_cases hrole : e.role = .unauthenticated
    · -- Only the member session of the device, if there is one, is taken out.
      have hput : (g.sessions.put j (g.promoted e)).contains id = true := by
        rw [Table.contains, Table.get?_put]
        split
        · rfl
        · exact h
      cases hm : g.members.get? (g.promoted e).device.identity with
      | none => simp [promote, he, hrole, hm, hput] at hgone
      | some old =>
        by_cases hold : old.session = id
        · simp [promote, he, hrole, hm, hold, hput]
        · have hstays :
              ((g.sessions.put j (g.promoted e)).erase old.session).contains id = true := by
            rw [Table.contains, Table.get?_erase, if_neg hold]
            exact hput
          simp [promote, he, hrole, hm, hstays] at hgone
    · simp [promote, he, hrole, h] at hgone

theorem kicked_of_kickEach {ids : List SessionId} (h : id ∈ ids) :
    .kick id ∈ (g.kickEach ids).effects := by
  induction ids generalizing g with
  | nil => cases h
  | cons j ids ih =>
    obtain rfl | hrest := List.mem_cons.1 h
    · exact List.mem_cons_self
    · exact List.mem_cons_of_mem _ (List.mem_append_right _ (ih hrest))

theorem contains_accept (mime : String) (data : Bytes) (origin : Origin)
    (except? : Option SessionId) :
    (g.accept room mime data origin except?).group.sessions.contains id =
      g.sessions.contains id := by
  rw [Table.contains, get?_sessions_accept]
  split
  · rw [Option.isSome_map]
    rfl
  · rfl

/-- A session stays in the group, or it is ended, or it is the one whose end was reported. -/
theorem kept_or_kicked (room : SessionId → Room) (op : Operation)
    (h : g.sessions.contains id = true) :
    (g.perform room op).group.sessions.contains id = true ∨
      .kick id ∈ (g.perform room op).effects ∨ ∃ reason, op = .remove id reason := by
  apply perform_cases (P := fun g' => g'.sessions.contains id = true ∨
    .kick id ∈ (g.perform room op).effects ∨ ∃ reason, op = .remove id reason)
  case same => exact .inl h
  case promote =>
    rintro j rfl
    cases hgone : (g.promote j).group.sessions.contains id with
    | true => exact .inl rfl
    | false => exact .inr (.inl (kicked_of_promote h hgone))
  case remove =>
    rintro j reason rfl
    by_cases hj : j = id
    · exact .inr (.inr ⟨reason, by rw [hj]⟩)
    · refine .inl ?_
      rw [Table.contains, get?_sessions_remove, if_neg hj]
      exact h
  case kickAll =>
    -- In whatever order the sessions end, each of them is told to.
    rintro order rfl
    exact .inr (.inl (kicked_of_kickEach
      ((Table.keysFrom_perm _ order).mem_iff.2 (Table.mem_keys.2 h))))
  case accept => exact fun mime data origin except? => .inl ((contains_accept ..).trans h)
  case flushed =>
    intro j seq
    refine .inl ?_
    rw [Table.contains, get?_sessions_flushed]
    split
    · rw [Option.isSome_map]
      exact h
    · exact h
  case discovery => exact fun _ => .inl h

/-- A session in the group was there before. -/
theorem contains_of_perform (h : (g.perform room op).group.sessions.contains id = true) :
    g.sessions.contains id = true := by
  obtain ⟨e', he'⟩ := Option.isSome_iff_exists.1 h
  obtain ⟨e, he, -⟩ := session_perform he'
  exact Option.isSome_iff_exists.2 ⟨e, he⟩

theorem contains_kickEach {ids : List SessionId} (h : id ∈ ids) :
    (g.kickEach ids).group.sessions.contains id = false := by
  rw [Table.contains, Option.isSome_eq_false_iff, Option.isNone_iff_eq_none,
    Option.eq_none_iff_forall_ne_some]
  intro e
  induction ids generalizing g with
  | nil => cases h
  | cons j ids ih =>
    intro he
    by_cases hj : j = id
    · have hgone : (g.remove j .kicked).group.sessions.get? id = some e :=
        get?_sessions_of_kickEach he
      rw [get?_sessions_remove, if_pos hj] at hgone
      cases hgone
    · exact ih ((List.mem_cons.1 h).resolve_left (Ne.symm hj)) he

/-- No session is left when all are ended. -/
theorem sessions_kickAll (g : Group) (order : List SessionId) :
    (g.kickAll order).group.sessions.keys = [] := by
  refine Table.keys_eq_nil fun id => ?_
  cases h : (g.kickAll order).group.sessions.contains id with
  | false => rfl
  | true =>
    obtain ⟨e, he⟩ := Option.isSome_iff_exists.1 h
    have hmem : id ∈ g.sessions.keysFrom order := (Table.keysFrom_perm _ order).mem_iff.2
      (Table.mem_keys.2 (Option.isSome_iff_exists.2 ⟨e, get?_sessions_of_kickEach he⟩))
    rw [← contains_kickEach hmem]
    exact h.symm

/-! ## Devices -/

/-- The device that an effect announces to have left the group. -/
def Effect.departed? : Effect → Option Device.Identity
  | .announce (.deviceLeft d) => some d.identity
  | _ => none

theorem departed_remove (g : Group) (id : SessionId) (reason : CloseReason) :
    g.members.keys.Perm ((g.remove id reason).effects.filterMap Effect.departed? ++
      (g.remove id reason).group.members.keys) := by
  cases he : g.sessions.get? id with
  | none =>
    rw [remove_of_none he]
    exact .refl _
  | some e =>
    by_cases hm : (g.members.get? e.device.identity).any (·.session == id) = true
    · have hcontains : g.members.contains e.device.identity = true := by
        obtain ⟨m, hm, -⟩ := (Option.any_eq_true _ _).1 hm
        exact Option.isSome_iff_exists.2 ⟨m, hm⟩
      simp only [remove, he, hm, if_true]
      exact Table.keys_perm_erase hcontains
    · simp only [remove, he, hm, Bool.false_eq_true, if_false]
      split <;> exact .refl _

theorem members_kickEach (g : Group) (ids : List SessionId) :
    g.members.keys.Perm ((g.kickEach ids).effects.filterMap Effect.departed? ++
      (g.kickEach ids).group.members.keys) := by
  induction ids generalizing g with
  | nil => exact .refl _
  | cons id ids ih =>
    have hdeparted : (g.kickEach (id :: ids)).effects.filterMap Effect.departed? =
        (g.remove id .kicked).effects.filterMap Effect.departed? ++
          ((g.remove id .kicked).group.kickEach ids).effects.filterMap Effect.departed? := by
      rw [← List.filterMap_append]
      rfl
    rw [hdeparted, List.append_assoc]
    exact (departed_remove g id .kicked).trans ((ih _).append_left _)

/-- No member is left when all sessions are ended, and each is announced to have left, once. -/
theorem InStep.members_kickAll (h : g.InStep) (order : List SessionId) :
    (g.kickAll order).group.members.keys = [] ∧
      ((g.kickAll order).effects.filterMap Effect.departed?).Perm g.members.keys := by
  have hnone : (g.kickAll order).group.members.keys = [] := by
    refine Table.keys_eq_nil fun k => ?_
    cases hm : (g.kickAll order).group.members.get? k with
    | none => rw [Table.contains, hm]; rfl
    | some m =>
      obtain ⟨e, he, -⟩ := (h.kickEach (g.sessions.keysFrom order) k m.session).1 (by
        rw [memberSession?]
        exact congrArg (Option.map _) hm)
      have hmem : m.session ∈ (g.kickAll order).group.sessions.keys :=
        Table.mem_keys.2 (Option.isSome_iff_exists.2 ⟨e, he⟩)
      rw [sessions_kickAll] at hmem
      cases hmem
  refine ⟨hnone, ?_⟩
  -- Those who were members have left, or are members still; and no members are left.
  have hperm := members_kickEach g (g.sessions.keysFrom order)
  rw [show (g.kickEach (g.sessions.keysFrom order)).group.members.keys = [] from hnone,
    List.append_nil] at hperm
  exact hperm.symm

end Group

end SharedClipboard
