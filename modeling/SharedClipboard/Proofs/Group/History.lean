import SharedClipboard.Proofs.Group.Operation

/-!
# What a history holds

An operation leaves the history of a group as it is or records one content that is not the current
one (`perform_history`). So in every reachable group the history has room for the current content,
and every digest in it is the digest of the content beside it (`Reachable.honest`).
-/

namespace SharedClipboard

namespace History

/-- There is room for the current content, and the digests are those of the contents. -/
structure Honest (h : History) : Prop where
  room : 0 < h.limit
  digests : ∀ s ∈ h.entries, s.hash = .of s.mime s.data

theorem honest_fresh (limit : Nat) : (fresh limit).Honest :=
  ⟨Nat.lt_of_lt_of_le Nat.zero_lt_one (Nat.le_max_right limit 1), by simp [fresh]⟩

theorem current_record {h : History} (hh : h.Honest) (mime : String) (data : Bytes)
    (origin : Origin) : (h.record mime data origin).2.current = some (h.next mime data origin) := by
  have hkeeps : ¬ (h.entries ++ [h.next mime data origin]).length ≤
      (h.entries ++ [h.next mime data origin]).length - h.limit := by
    have hroom := hh.room
    simp only [List.length_append, List.length_singleton]
    omega
  simp only [record, current, List.getLast?_drop, if_neg hkeeps, List.getLast?_append,
    List.getLast?_singleton, Option.some_or]

theorem isCurrent_record {h : History} (hh : h.Honest) (mime : String) (data : Bytes)
    (origin : Origin) : (h.record mime data origin).2.isCurrent (.of mime data) = true := by
  rw [isCurrent, current_record hh]
  simp [next]

theorem Honest.record {h : History} (hh : h.Honest) (mime : String) (data : Bytes)
    (origin : Origin) : (h.record mime data origin).2.Honest where
  room := hh.room
  digests s hs := by
    have hs' := List.mem_of_mem_drop hs
    rw [List.mem_append, List.mem_singleton] at hs'
    obtain hold | rfl := hs'
    · exact hh.digests s hold
    · rfl

/-- The content that is on the clipboard. -/
def content (h : History) : Option (String × Bytes) := h.current.map fun s => (s.mime, s.data)

theorem content_record {h : History} (hh : h.Honest) (mime : String) (data : Bytes)
    (origin : Origin) : (h.record mime data origin).2.content = some (mime, data) := by
  rw [content, current_record hh]
  rfl

/-- Whether a content is current depends on the content of the clipboard only. -/
theorem isCurrent_eq {h : History} (hh : h.Honest) (hash : ContentHash) :
    h.isCurrent hash = h.content.any fun x => .of x.1 x.2 == hash := by
  rw [isCurrent, content]
  cases hs : h.current with
  | none => rfl
  | some s =>
    rw [Option.any_some, hh.digests s (List.mem_of_getLast? hs)]
    rfl

end History

namespace Group

theorem history_promote (g : Group) (id : SessionId) :
    (g.promote id).group.history = g.history := by
  unfold promote
  split
  · rfl
  · split
    · rfl
    · simp only
      split <;> rfl

theorem history_remove (g : Group) (id : SessionId) (reason : CloseReason) :
    (g.remove id reason).group.history = g.history := by
  unfold remove
  split
  · rfl
  · simp only
    split <;> rfl

theorem history_kickEach (g : Group) (ids : List SessionId) :
    (g.kickEach ids).group.history = g.history := by
  induction ids generalizing g with
  | nil => rfl
  | cons id ids ih => exact (ih (g.remove id .kicked).group).trans (history_remove g id .kicked)

/-! ## Operations that take up a content -/

/-- The operation makes the group take up a content, which came from the given origin and is not
sent back to the given session. -/
inductive Takes (g : Group) : Operation → String → Bytes → Origin → Option SessionId → Prop where
  | remote {id : SessionId} {e : SessionEntry} {mime : String} {data : Bytes} :
      g.sessions.get? id = some e → e.role = .authenticated → e.inFlight = none →
      g.history.isCurrent (.of mime data) = false →
      Takes g (.acceptUpdate id mime data) mime data (.remote e.device) (some id)
  | own {mime : String} {data : Bytes} : g.history.isCurrent (.of mime data) = false →
      Takes g (.publishLocal mime data) mime data .local none

/-- The number under which a content was taken up, if one was. -/
def Answer.accepted? : Answer → Option Nat
  | .update (.accepted seq _) => some seq
  | .published seq => seq
  | _ => none

/-- The effect sends a content to a session or announces it. -/
def Effect.spreads : Effect → Bool
  | .deliver _ _ | .announce (.clipboardUpdated _ _ _ _) => true
  | _ => false

theorem perform_of_takes {g : Group} {op : Operation} {mime : String} {data : Bytes}
    {origin : Origin} {except? : Option SessionId} (h : Takes g op mime data origin except?)
    (room : SessionId → Room) :
    (g.perform room op).group = (g.accept room mime data origin except?).group ∧
      (g.perform room op).effects = (g.accept room mime data origin except?).effects ∧
      (g.perform room op).answer.accepted? = some g.history.nextSeq ∧
      g.history.isCurrent (.of mime data) = false := by
  cases h with
  | remote he hrole hfl hnew =>
    simp only [perform, acceptUpdate_of_new he hrole hfl hnew]
    exact ⟨rfl, rfl, rfl, hnew⟩
  | own hnew =>
    obtain ⟨hcur, -⟩ | ⟨-, htaken⟩ := publishLocal_cases g room mime data
    · rw [hnew] at hcur
      cases hcur
    · simp only [perform, htaken]
      exact ⟨rfl, rfl, rfl, hnew⟩

theorem spreads_promote (g : Group) (id : SessionId) :
    ∀ x ∈ (g.promote id).effects, x.spreads = false := by
  intro x hx
  unfold promote at hx
  split at hx
  · cases hx
  · split at hx
    · cases hx
    · simp only at hx
      split at hx
      · rw [List.mem_singleton] at hx
        rw [hx]
        rfl
      · rw [List.mem_append, List.mem_singleton] at hx
        rcases hx with hkick | rfl
        · split at hkick
          · rw [List.mem_singleton] at hkick
            rw [hkick]
            rfl
          · cases hkick
        · rfl

theorem spreads_remove (g : Group) (id : SessionId) (reason : CloseReason) :
    ∀ x ∈ (g.remove id reason).effects, x.spreads = false := by
  intro x hx
  unfold remove at hx
  split at hx
  · cases hx
  · simp only at hx
    split at hx
    · rw [List.mem_singleton] at hx
      rw [hx]
      rfl
    · simp only at hx
      split at hx
      · rw [List.mem_singleton] at hx
        rw [hx]
        rfl
      · cases hx

theorem spreads_kickEach (g : Group) (ids : List SessionId) :
    ∀ x ∈ (g.kickEach ids).effects, x.spreads = false := by
  induction ids generalizing g with
  | nil => intro x hx; cases hx
  | cons id ids ih =>
    intro x hx
    rw [kickEach, List.cons_append, List.mem_cons, List.mem_append] at hx
    rcases hx with rfl | hremove | hrest
    · rfl
    · exact spreads_remove g id .kicked x hremove
    · exact ih _ x hrest

theorem spreads_onDiscovery (g : Group) (me : LocalIdentity) (port : UInt16)
    (machine : List Net.IpAddress) (e : DiscoveryEvent) :
    ∀ x ∈ (g.onDiscovery me port machine e).effects, x.spreads = false := by
  intro x hx
  unfold onDiscovery at hx
  cases e with
  | added d =>
    simp only at hx
    split at hx
    · cases hx
    · split at hx
      · cases hx
      · rw [List.mem_singleton] at hx
        rw [hx]
        rfl
  | removed d =>
    simp only at hx
    split at hx
    · rw [List.mem_singleton] at hx
      rw [hx]
      rfl
    · cases hx

/-- Taking up a content announces it, and nothing else. -/
theorem events_accept (g : Group) (room : SessionId → Room) (mime : String) (data : Bytes)
    (origin : Origin) (except? : Option SessionId) :
    (g.accept room mime data origin except?).effects.filterMap Effect.event? =
      [.clipboardUpdated g.history.nextSeq mime data origin] := by
  have hframes : ∀ ids : List SessionId,
      (ids.map fun id => Effect.deliver id
        (updateFrame (g.history.next mime data origin))).filterMap Effect.event? = [] := by
    intro ids
    induction ids with
    | nil => rfl
    | cons id ids ih => exact ih
  rw [accept, List.filterMap_append]
  exact congrArg (· ++ _) (hframes _)

/-- An operation takes up a content, or it leaves the history as it is and spreads nothing. -/
theorem takes_or_keeps (g : Group) (room : SessionId → Room) (op : Operation) :
    (∃ mime data origin except?, Takes g op mime data origin except?) ∨
      ((g.perform room op).group.history = g.history ∧
        (∀ x ∈ (g.perform room op).effects, x.spreads = false) ∧
        (g.perform room op).answer.accepted? = none) := by
  cases op with
  | promote id => exact .inr ⟨history_promote g id, spreads_promote g id, rfl⟩
  | remove id reason => exact .inr ⟨history_remove g id reason, spreads_remove g id reason, rfl⟩
  | kickAll order =>
    exact .inr ⟨history_kickEach g _, spreads_kickEach g _, rfl⟩
  | flushed id seq => exact .inr ⟨rfl, by simp [perform], rfl⟩
  | discovery me port machine e =>
    obtain ⟨t, ht⟩ := onDiscovery_group g me port machine e
    exact .inr ⟨(congrArg history ht :), spreads_onDiscovery g me port machine e, rfl⟩
  | acceptUpdate id mime data =>
    obtain ⟨hsame, hnone, hrefused⟩ | ⟨e, he, hrole, hfl, hnew, -⟩ :=
      acceptUpdate_cases g room id mime data
    · refine .inr ⟨congrArg history hsame, by simp [perform, Outcome.map, hnone], ?_⟩
      show (Answer.update (g.acceptUpdate room id mime data).answer).accepted? = none
      revert hrefused
      cases (g.acceptUpdate room id mime data).answer <;> simp [UpdateOutcome.isRefusal,
        Answer.accepted?]
    · exact .inl ⟨mime, data, .remote e.device, some id, .remote he hrole hfl hnew⟩
  | publishLocal mime data =>
    obtain ⟨-, hsame⟩ | ⟨hnew, -⟩ := publishLocal_cases g room mime data
    · refine .inr ?_
      simp only [perform, hsame]
      exact ⟨rfl, by simp [Outcome.map], rfl⟩
    · exact .inl ⟨mime, data, .local, none, .own hnew⟩

/-- An operation leaves the history as it is or records one content that is not the current one. -/
theorem perform_history (g : Group) (room : SessionId → Room) (op : Operation) :
    (g.perform room op).group.history = g.history ∨
      ∃ mime data origin, g.history.isCurrent (.of mime data) = false ∧
        (g.perform room op).group.history = (g.history.record mime data origin).2 := by
  obtain ⟨mime, data, origin, except?, htakes⟩ | ⟨hsame, -⟩ := takes_or_keeps g room op
  · obtain ⟨hgroup, -, -, hnew⟩ := perform_of_takes htakes room
    exact .inr ⟨mime, data, origin, hnew, congrArg history hgroup⟩
  · exact .inl hsame

theorem Reachable.honest {limit : Nat} {g : Group} (h : Reachable limit g) : g.history.Honest := by
  induction h with
  | fresh => exact History.honest_fresh limit
  | attach _ _ _ ih => exact ih
  | @perform g room op _ ih =>
    obtain hsame | ⟨mime, data, origin, -, hrecord⟩ := perform_history g room op
    · rw [hsame]
      exact ih
    · rw [hrecord]
      exact ih.record mime data origin

end Group

end SharedClipboard
