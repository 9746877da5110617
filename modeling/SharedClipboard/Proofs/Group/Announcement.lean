import SharedClipboard.Proofs.Group.Listener
import SharedClipboard.Proofs.Group.Membership

/-!
# What the group announces of a session

That a device joined is announced when a session becomes a member, and that an authentication failed
when the end of a session is reported with this reason (`announced_perform`).

A session that has not been admitted is a stranger. It stays one until it is admitted, its end is
reported, or all sessions are ended (`Stranger.perform`); nobody listens to it, and if its
authentication failed its end is announced so.
-/

namespace SharedClipboard

namespace Group

variable {g : Group} {room : SessionId → Room} {op : Operation} {id : SessionId}

/-! ## What an operation announces -/

theorem announced_accept {mime : String} {data : Bytes} {origin : Origin}
    {except? : Option SessionId} {x : Event}
    (h : .announce x ∈ (g.accept room mime data origin except?).effects) :
    ∃ seq mime data origin, x = .clipboardUpdated seq mime data origin := by
  obtain hdeliver | hannounce := List.mem_append.1 h
  · obtain ⟨j, -, heq⟩ := List.mem_map.1 hdeliver
    cases heq
  · cases List.mem_singleton.1 hannounce
    exact ⟨_, _, _, _, rfl⟩

theorem announced_remove {reason : CloseReason} {x : Event}
    (h : .announce x ∈ (g.remove id reason).effects) :
    (∃ d, x = .deviceLeft d) ∨
      ∃ d cause, reason = .auth cause ∧ x = .authenticationFailed d cause := by
  unfold remove at h
  split at h
  · cases h
  · simp only at h
    split at h
    · cases List.mem_singleton.1 h
      exact .inl ⟨_, rfl⟩
    · simp only at h
      split at h
      · cases List.mem_singleton.1 h
        exact .inr ⟨_, _, rfl, rfl⟩
      · cases h

theorem announced_kickEach {ids : List SessionId} {x : Event}
    (h : .announce x ∈ (g.kickEach ids).effects) : ∃ d, x = .deviceLeft d := by
  induction ids generalizing g with
  | nil => cases h
  | cons id ids ih =>
    obtain hkick | hrest := List.mem_cons.1 h
    · cases hkick
    · obtain hremove | hlater := List.mem_append.1 hrest
      · obtain hleft | ⟨d, cause, hreason, -⟩ := announced_remove hremove
        · exact hleft
        · cases hreason
      · exact ih hlater

theorem announced_onDiscovery {me : LocalIdentity} {port : UInt16} {machine : List Net.IpAddress}
    {e : DiscoveryEvent} {x : Event}
    (h : .announce x ∈ (g.onDiscovery me port machine e).effects) :
    (∃ d, x = .deviceDiscovered d) ∨ ∃ d, x = .deviceLost d := by
  unfold onDiscovery at h
  cases e with
  | added d =>
    simp only at h
    split at h
    · cases h
    · split at h
      · cases h
      · cases List.mem_singleton.1 h
        exact .inl ⟨_, rfl⟩
  | removed d =>
    simp only at h
    split at h
    · cases List.mem_singleton.1 h
      exact .inr ⟨_, rfl⟩
    · cases h

/-- That a device joined is announced when a session becomes a member, and that an authentication
failed when the end of a session is reported with this reason. -/
theorem announced_perform {x : Event} (h : .announce x ∈ (g.perform room op).effects) :
    ((∃ d, x = .deviceJoined d) → ∃ id, op = .promote id) ∧
      ∀ d cause, x = .authenticationFailed d cause → ∃ id, op = .remove id (.auth cause) := by
  cases op with
  | promote id =>
    refine ⟨fun _ => ⟨id, rfl⟩, ?_⟩
    rintro d cause rfl
    have hevent : .authenticationFailed d cause ∈ (g.promote id).effects.filterMap Effect.event? :=
      List.mem_filterMap.2 ⟨_, h, rfl⟩
    obtain hsame | ⟨d', hevents, -⟩ := promote_joins g id
    · rw [hsame] at hevent
      cases hevent
    · rw [hevents] at hevent
      cases List.mem_singleton.1 hevent
  | remove id reason =>
    -- A failure has the cause for which the session is removed; a member leaves without one.
    obtain ⟨d, rfl⟩ | ⟨d, cause, rfl, rfl⟩ := announced_remove h
    · exact ⟨fun ⟨d', hd⟩ => (nomatch hd), fun d' cause hd => (nomatch hd)⟩
    · refine ⟨fun ⟨d', hd⟩ => (nomatch hd), fun d' cause' hd => ?_⟩
      cases hd
      exact ⟨id, rfl⟩
  | kickAll order =>
    obtain ⟨d, rfl⟩ := announced_kickEach h
    exact ⟨fun ⟨d', hd⟩ => (nomatch hd), fun d' cause hd => (nomatch hd)⟩
  | acceptUpdate id mime data =>
    replace h : .announce x ∈ (g.acceptUpdate room id mime data).effects := h
    obtain ⟨-, hnone, -⟩ | ⟨e, -, -, -, -, htaken⟩ := acceptUpdate_cases g room id mime data
    · rw [hnone] at h
      cases h
    · rw [htaken] at h
      obtain ⟨_, _, _, _, rfl⟩ := announced_accept h
      exact ⟨fun ⟨d', hd⟩ => (nomatch hd), fun d' cause hd => (nomatch hd)⟩
  | publishLocal mime data =>
    replace h : .announce x ∈ (g.publishLocal room mime data).effects := h
    obtain ⟨-, hsame⟩ | ⟨-, htaken⟩ := publishLocal_cases g room mime data
    · rw [hsame] at h
      cases h
    · rw [htaken] at h
      obtain ⟨_, _, _, _, rfl⟩ := announced_accept h
      exact ⟨fun ⟨d', hd⟩ => (nomatch hd), fun d' cause hd => (nomatch hd)⟩
  | flushed id seq => cases h
  | discovery me port machine e =>
    obtain ⟨d, rfl⟩ | ⟨d, rfl⟩ := announced_onDiscovery h
    all_goals exact ⟨fun ⟨d', hd⟩ => (nomatch hd), fun d' cause hd => (nomatch hd)⟩

/-! ## Strangers -/

/-- The group knows the session as one that is not a member. -/
def Stranger (g : Group) (id : SessionId) : Prop :=
  ∃ e, g.sessions.get? id = some e ∧ e.role = .unauthenticated

theorem Stranger.of_map {g' : Group} (h : g.Stranger id) (f : SessionEntry → SessionEntry)
    (hrole : ∀ e, (f e).role = e.role)
    (hsessions : g'.sessions.get? id = (g.sessions.get? id).map f) : g'.Stranger id := by
  obtain ⟨e, he, hunauth⟩ := h
  exact ⟨f e, by rw [hsessions, he]; rfl, (hrole e).trans hunauth⟩

theorem Stranger.accept (h : g.Stranger id) (mime : String) (data : Bytes) (origin : Origin)
    (except? : Option SessionId) : (g.accept room mime data origin except?).group.Stranger id := by
  refine h.of_map (fun e => if id ∈ g.recipients room except? then
    { e with inFlight := some g.history.nextSeq } else e) (fun e => ?_) ?_
  · split <;> rfl
  · rw [get?_sessions_accept]
    split <;> simp

/-- Nothing but an admission of the session, its end, or the end of all sessions makes it something
else. -/
theorem Stranger.perform (h : g.Stranger id) (hstep : g.InStep) (hpromote : op ≠ .promote id)
    (hremove : ∀ reason, op ≠ .remove id reason) (hall : ∀ order, op ≠ .kickAll order) :
    (g.perform room op).group.Stranger id := by
  have ⟨e, he, hrole⟩ := h
  have same : ∀ {g' : Group}, g'.sessions.get? id = g.sessions.get? id → g'.Stranger id :=
    fun hsame => ⟨e, hsame.trans he, hrole⟩
  apply perform_cases (P := (Stranger · id))
  case same => exact h
  case promote =>
    intro j hop
    obtain ⟨heq, -⟩ | ⟨e', -, -, -, hsessions, -⟩ := promote_cases g j
    · rw [heq]
      exact h
    · -- It is not the session that is replaced, which was a member, nor the one that joins.
      refine same ?_
      rw [hsessions, if_neg (hstep.not_member he hrole _), if_neg]
      rintro rfl
      exact hpromote hop
  case remove =>
    intro j reason hop
    refine same ?_
    rw [get?_sessions_remove, if_neg]
    rintro rfl
    exact hremove reason hop
  case kickAll => exact fun order hop => absurd hop (hall order)
  case accept => exact fun mime data origin except? => Stranger.accept h ..
  case flushed =>
    intro j seq
    refine Stranger.of_map h (fun e =>
      if j = id ∧ e.inFlight = some seq then { e with inFlight := none } else e) (fun e => ?_) ?_
    · split <;> rfl
    · rw [get?_sessions_flushed]
      by_cases hj : j = id <;> simp [hj]
  case discovery => exact fun _ => h

/-- Nobody listens to a stranger. -/
theorem Stranger.acceptUpdate (h : g.Stranger id) (room : SessionId → Room) (mime : String)
    (data : Bytes) :
    (g.acceptUpdate room id mime data).effects = [] := by
  obtain ⟨e, he, hrole⟩ := h
  simp [Group.acceptUpdate, he, hrole]

/-- The end of a stranger whose authentication failed is announced as such. -/
theorem Stranger.remove (h : g.Stranger id) (hstep : g.InStep) (cause : AuthError) :
    ∃ d, (g.remove id (.auth cause)).effects = [.announce (.authenticationFailed d cause)] := by
  obtain ⟨e, he, hrole⟩ := h
  have hmember : (g.members.get? e.device.identity).any (·.session == id) = false := by
    have hnot := hstep.not_member he hrole e.device.identity
    rw [memberSession?] at hnot
    cases hm : g.members.get? e.device.identity with
    | none => rfl
    | some m => simpa [hm] using hnot
  exact ⟨e.device, by simp [Group.remove, he, hrole, hmember]⟩

end Group

end SharedClipboard
