import SharedClipboard.Group.Basic

/-!
# The operations of a group as data

`Group.Operation` names what can be done to a group besides taking up a session, and
`Group.perform` does it. The groups that such operations lead to are `Group.Reachable`: a session
is taken up under an id that no session has at the moment, and not as a member. The room in the
outboxes is different at each operation.

The rest says what each operation does to the two tables of a group: to the sessions
(`Table.get?`) and to the session that stands for a device (`Group.memberSession?`). The proofs
about groups read the operations through these lemmas. The order in which a group ends all its
sessions shows only in the order of what is announced (`kickAll_reorder`).
-/

namespace SharedClipboard.Group

/-! ## Operations and reachable groups -/

/-- What can be done to a group, besides taking up a session. -/
inductive Operation where
  | promote (id : SessionId)
  | remove (id : SessionId) (reason : CloseReason)
  | kickAll (order : List SessionId)
  | acceptUpdate (id : SessionId) (mime : String) (data : Bytes)
  | publishLocal (mime : String) (data : Bytes)
  | flushed (id : SessionId) (seq : Nat)
  | discovery (me : LocalIdentity) (port : UInt16) (machine : List Net.IpAddress)
      (e : DiscoveryEvent)
  deriving DecidableEq, Repr, Inhabited

inductive Answer where
  | done
  | promoted (b : Bool)
  | departed (d : Option Device)
  | update (o : UpdateOutcome)
  | published (seq : Option Nat)
  | toDial (d : Option Device)
  deriving DecidableEq, Repr, Inhabited

/-- An outcome with its answer changed. -/
def Outcome.map {α β : Type} (f : α → β) (o : Outcome α) : Outcome β :=
  { group := o.group, effects := o.effects, answer := f o.answer }

def perform (g : Group) (room : SessionId → Room) : Operation → Outcome Answer
  | .promote id => (g.promote id).map .promoted
  | .remove id reason => (g.remove id reason).map .departed
  | .kickAll order => (g.kickAll order).map fun _ => .done
  | .acceptUpdate id mime data => (g.acceptUpdate room id mime data).map .update
  | .publishLocal mime data => (g.publishLocal room mime data).map .published
  | .flushed id seq => { group := g.flushed id seq, answer := .done }
  | .discovery me port machine e => (g.onDiscovery me port machine e).map .toDial

/-- The groups that keep the given number of updates and that operations lead to. -/
inductive Reachable (limit : Nat) : Group → Prop where
  | fresh : Reachable limit (.fresh limit)
  | attach {g : Group} {id : SessionId} {e : SessionEntry} : Reachable limit g →
      g.sessions.get? id = none → e.role = .unauthenticated → Reachable limit (g.attach id e)
  | perform {g : Group} (room : SessionId → Room) (op : Operation) : Reachable limit g →
      Reachable limit (g.perform room op).group

theorem Reachable.promote {limit : Nat} {g : Group} (h : Reachable limit g) (id : SessionId) :
    Reachable limit (g.promote id).group :=
  h.perform (fun _ => .free) (.promote id)

/-! ## The two tables -/

/-- The session that stands for a device in the group. -/
def memberSession? (g : Group) (k : Device.Identity) : Option SessionId :=
  (g.members.get? k).map (·.session)

/-- The session is authenticated as a session of the device. -/
def Admitted (g : Group) (id : SessionId) (k : Device.Identity) : Prop :=
  ∃ e, g.sessions.get? id = some e ∧ e.role = .authenticated ∧ e.device.identity = k

theorem Admitted.unique {g : Group} {id : SessionId} {k k' : Device.Identity}
    (h : g.Admitted id k) (h' : g.Admitted id k') : k = k' := by
  obtain ⟨e, he, -, rfl⟩ := h
  obtain ⟨e', he', -, rfl⟩ := h'
  rw [he] at he'
  rw [Option.some.inj he']

theorem get?_sessions_attach (g : Group) (id j : SessionId) (e : SessionEntry) :
    (g.attach id e).sessions.get? j = if id = j then some e else g.sessions.get? j :=
  Table.get?_put g.sessions id j e

theorem memberSession?_attach (g : Group) (id : SessionId) (e : SessionEntry)
    (k : Device.Identity) : (g.attach id e).memberSession? k = g.memberSession? k := rfl

/-! ## Becoming a member -/

/-- Either the session could not become a member and nothing happened, or it waited to be admitted
and is now the member session of its device, in place of the one that was. -/
theorem promote_cases (g : Group) (id : SessionId) :
    (g.promote id = { group := g, answer := false } ∧
        ∀ e, g.sessions.get? id = some e → e.role = .authenticated) ∨
      ∃ e, g.sessions.get? id = some e ∧ e.role = .unauthenticated ∧
        (g.promote id).answer = true ∧
        (∀ j, (g.promote id).group.sessions.get? j =
          if g.memberSession? (g.promoted e).device.identity = some j then none
          else if id = j then some (g.promoted e) else g.sessions.get? j) ∧
        ∀ k, (g.promote id).group.memberSession? k =
          if (g.promoted e).device.identity = k then some id else g.memberSession? k := by
  cases he : g.sessions.get? id with
  | none => exact .inl ⟨by simp [promote, he], by simp⟩
  | some e =>
    by_cases hrole : e.role = .unauthenticated
    · refine .inr ⟨e, rfl, hrole, ?_⟩
      -- What is dropped and recorded depends on whether the device has a member session already.
      cases hm : g.members.get? (g.promoted e).device.identity with
      | none =>
        have hp : g.promote id =
            { group := { g with
                sessions := g.sessions.put id (g.promoted e)
                members := g.members.put (g.promoted e).device.identity
                  ⟨(g.promoted e).device, id⟩ }
              effects := [.announce (.deviceJoined (g.promoted e).device)]
              answer := true } := by simp [promote, he, hrole, hm]
        rw [hp]
        refine ⟨rfl, fun j => ?_, fun k => ?_⟩
        · simp [memberSession?, hm, Table.get?_put]
        · simp only [memberSession?, Table.get?_put]
          split <;> rfl
      | some old =>
        have hp : (g.promote id).answer = true ∧ (g.promote id).group =
            { g with
              sessions := (g.sessions.put id (g.promoted e)).erase old.session
              members := g.members.put (g.promoted e).device.identity
                { old with session := id } } := by simp [promote, he, hrole, hm]
        rw [hp.1, hp.2]
        refine ⟨rfl, fun j => ?_, fun k => ?_⟩
        · simp [memberSession?, hm, Table.get?_put, Table.get?_erase]
        · simp only [memberSession?, Table.get?_put]
          split <;> rfl
    · refine .inl ⟨by simp [promote, he, hrole], fun e' he' => ?_⟩
      cases he'
      cases hr : e.role with
      | unauthenticated => exact absurd hr hrole
      | authenticated => rfl

/-! ## Ending -/

theorem remove_of_none {g : Group} {id : SessionId} (he : g.sessions.get? id = none)
    (reason : CloseReason) : g.remove id reason = { group := g, answer := none } := by
  simp [remove, he]

/-- What is announced when a session ends: its device leaves if it was the member session. -/
def departure (e : SessionEntry) (reason : CloseReason) (leaves : Bool) : List Effect :=
  if leaves then [.announce (.deviceLeft e.device)]
  else match e.role, reason with
    | .unauthenticated, .auth cause => [.announce (.authenticationFailed e.device cause)]
    | _, _ => []

theorem remove_of_some {g : Group} {id : SessionId} {e : SessionEntry}
    (he : g.sessions.get? id = some e) (reason : CloseReason) :
    g.remove id reason =
      let leaves := decide (g.memberSession? e.device.identity = some id)
      { group := { g with
          sessions := g.sessions.erase id
          members := if leaves then g.members.erase e.device.identity else g.members }
        effects := departure e reason leaves
        answer := if leaves then some e.device else none } := by
  have hleaves : (g.members.get? e.device.identity).any (·.session == id) =
      decide (g.memberSession? e.device.identity = some id) := by
    unfold memberSession?
    cases g.members.get? e.device.identity with
    | none => rfl
    | some m => simp [Bool.beq_eq_decide_eq]
  simp only [remove, he, hleaves, departure]
  split <;> rfl

theorem get?_sessions_remove (g : Group) (id j : SessionId) (reason : CloseReason) :
    (g.remove id reason).group.sessions.get? j = if id = j then none else g.sessions.get? j := by
  cases he : g.sessions.get? id with
  | none =>
    rw [remove_of_none he]
    split
    · rename_i h
      rw [← h, he]
    · rfl
  | some e =>
    rw [remove_of_some he]
    exact Table.get?_erase g.sessions id j

theorem memberSession?_remove (g : Group) {id : SessionId} {e : SessionEntry}
    (he : g.sessions.get? id = some e) (reason : CloseReason) (k : Device.Identity) :
    (g.remove id reason).group.memberSession? k =
      if e.device.identity = k ∧ g.memberSession? k = some id then none
      else g.memberSession? k := by
  rw [remove_of_some he]
  by_cases hleaves : g.memberSession? e.device.identity = some id
  · simp only [hleaves, decide_true, if_true]
    show ((g.members.erase e.device.identity).get? k).map (·.session) = _
    rw [Table.get?_erase]
    by_cases hk : e.device.identity = k
    · subst hk
      rw [if_pos rfl, if_pos ⟨rfl, hleaves⟩, Option.map_none]
    · rw [if_neg hk, if_neg fun h => hk h.1]
      rfl
  · have hstays : ¬ (e.device.identity = k ∧ g.memberSession? k = some id) := by
      rintro ⟨rfl, hk⟩
      exact hleaves hk
    rw [if_neg hstays]
    simp only [hleaves, decide_false, Bool.false_eq_true, if_false]
    rfl

/-! ## Ending all sessions -/

/-- Dropping one session does not bear on dropping another. -/
theorem remove_remove {g : Group} {a b : SessionId} (hab : a ≠ b) (reason reason' : CloseReason) :
    (g.remove a reason).group.remove b reason' =
      { g.remove b reason' with group := ((g.remove b reason').group.remove a reason).group } := by
  cases ha : g.sessions.get? a with
  | none =>
    have ha' : (g.remove b reason').group.sessions.get? a = none := by
      rw [get?_sessions_remove, if_neg hab.symm, ha]
    rw [remove_of_none ha, remove_of_none ha']
  | some e =>
    cases hb : g.sessions.get? b with
    | none =>
      have hb' : (g.remove a reason).group.sessions.get? b = none := by
        rw [get?_sessions_remove, if_neg hab, hb]
      rw [remove_of_none hb, remove_of_none hb']
    | some f =>
      have ha' : (g.remove b reason').group.sessions.get? a = some e := by
        rw [get?_sessions_remove, if_neg hab.symm, ha]
      have hb' : (g.remove a reason).group.sessions.get? b = some f := by
        rw [get?_sessions_remove, if_neg hab, hb]
      have hleaves : (g.remove a reason).group.memberSession? f.device.identity = some b ↔
          g.memberSession? f.device.identity = some b := by
        rw [memberSession?_remove g ha]
        grind
      have hleaves' : (g.remove b reason').group.memberSession? e.device.identity = some a ↔
          g.memberSession? e.device.identity = some a := by
        rw [memberSession?_remove g hb]
        grind
      rw [remove_of_some hb', remove_of_some ha']
      simp only [hleaves, hleaves']
      rw [remove_of_some ha, remove_of_some hb]
      simp only [Table.erase_comm g.sessions a b]
      by_cases he : g.memberSession? e.device.identity = some a
      all_goals by_cases hf : g.memberSession? f.device.identity = some b
      all_goals simp [he, hf, Table.erase_comm g.members e.device.identity]

/-- In which order sessions are ended shows in nothing but the order in which that is announced. -/
theorem kickEach_perm {ids ids' : List SessionId} (h : ids.Perm ids') (g : Group) :
    (g.kickEach ids).group = (g.kickEach ids').group ∧
      (g.kickEach ids).effects.Perm (g.kickEach ids').effects := by
  induction h generalizing g with
  | nil => exact ⟨rfl, .refl _⟩
  | cons id _ ih =>
    obtain ⟨hgroup, heffects⟩ := ih (g.remove id .kicked).group
    exact ⟨hgroup, (heffects.append_left _).cons _⟩
  | swap a b ids =>
    by_cases hab : b = a
    · rw [hab]
      exact ⟨rfl, .refl _⟩
    · -- Both lists drop the two sessions first, and what is left to end is the same.
      have hgroup := congrArg Outcome.group (remove_remove (g := g) hab .kicked .kicked)
      have hb := congrArg Outcome.effects (remove_remove (g := g) hab .kicked .kicked)
      have ha := congrArg Outcome.effects (remove_remove (g := g) (Ne.symm hab) .kicked .kicked)
      simp only at hgroup hb ha
      simp only [kickEach, hgroup, hb, ha, true_and]
      exact List.perm_append_comm_assoc (.kick b :: (g.remove b .kicked).effects)
        (.kick a :: (g.remove a .kicked).effects) _
  | trans _ _ ih ih' =>
    obtain ⟨hgroup, heffects⟩ := ih g
    obtain ⟨hgroup', heffects'⟩ := ih' g
    exact ⟨hgroup.trans hgroup', heffects.trans heffects'⟩

/-- All sessions can be ended in any order. -/
theorem kickAll_reorder (g : Group) (order order' : List SessionId) :
    (g.kickAll order).group = (g.kickAll order').group ∧
      (g.kickAll order).effects.Perm (g.kickAll order').effects :=
  kickEach_perm ((Table.keysFrom_perm _ order).trans (Table.keysFrom_perm _ order').symm) g

/-! ## The clipboard -/

theorem get?_foldl_modify (f : SessionEntry → SessionEntry) (hf : ∀ e, f (f e) = f e)
    (ids : List SessionId) (t : Table SessionId SessionEntry) (j : SessionId) :
    (ids.foldl (fun t id => t.modify id f) t).get? j =
      if j ∈ ids then (t.get? j).map f else t.get? j := by
  induction ids generalizing t with
  | nil => simp
  | cons id ids ih =>
    rw [List.foldl_cons, ih, Table.get?_modify]
    by_cases h : id = j
    · subst h
      cases t.get? id <;> simp [hf]
    · simp [h, Ne.symm h]

/-- Taking up a content leaves the sessions as they are but for what is under way to them. -/
theorem get?_sessions_accept (g : Group) (room : SessionId → Room) (mime : String) (data : Bytes)
    (origin : Origin) (except? : Option SessionId) (j : SessionId) :
    (g.accept room mime data origin except?).group.sessions.get? j =
      if j ∈ g.recipients room except? then
        (g.sessions.get? j).map fun e => { e with inFlight := some g.history.nextSeq }
      else g.sessions.get? j :=
  get?_foldl_modify (fun e => { e with inFlight := some g.history.nextSeq }) (fun _ => rfl)
    (g.recipients room except?) g.sessions j

/-- A member that sends what is current already is not listened to. -/
theorem acceptUpdate_of_current {g : Group} {id : SessionId} {e : SessionEntry}
    (he : g.sessions.get? id = some e) (hrole : e.role = .authenticated) {mime : String}
    {data : Bytes} (hcur : g.history.isCurrent (.of mime data) = true) (room : SessionId → Room) :
    g.acceptUpdate room id mime data = { group := g, answer := .echo } := by
  simp [acceptUpdate, he, hrole, hcur]

/-- A content that is new is taken up from a member with nothing under way to it. -/
theorem acceptUpdate_of_new {g : Group} {id : SessionId} {e : SessionEntry}
    (he : g.sessions.get? id = some e) (hrole : e.role = .authenticated) (hfl : e.inFlight = none)
    {mime : String} {data : Bytes} (hnew : g.history.isCurrent (.of mime data) = false)
    (room : SessionId → Room) :
    g.acceptUpdate room id mime data =
      (g.accept room mime data (.remote e.device) (some id)).map fun a => .accepted a.1 a.2 := by
  simp [acceptUpdate, he, hrole, hnew, hfl, Outcome.map]

/-- The update was not taken up. -/
def UpdateOutcome.isRefusal : UpdateOutcome → Bool
  | accepted _ _ => false
  | echo | stale | unauthenticated | unknownSession => true

/-- An update of a peer is refused and changes nothing, or it comes from an authenticated session
with nothing under way to it and its content is taken up. -/
theorem acceptUpdate_cases (g : Group) (room : SessionId → Room) (id : SessionId) (mime : String)
    (data : Bytes) :
    ((g.acceptUpdate room id mime data).group = g ∧
        (g.acceptUpdate room id mime data).effects = [] ∧
        (g.acceptUpdate room id mime data).answer.isRefusal = true) ∨
      ∃ e, g.sessions.get? id = some e ∧ e.role = .authenticated ∧ e.inFlight = none ∧
        g.history.isCurrent (.of mime data) = false ∧
        g.acceptUpdate room id mime data =
          (g.accept room mime data (.remote e.device) (some id)).map fun a =>
            .accepted a.1 a.2 := by
  have refused : ∀ o : UpdateOutcome, o.isRefusal = true →
      g.acceptUpdate room id mime data = { group := g, answer := o } →
      (g.acceptUpdate room id mime data).group = g ∧
        (g.acceptUpdate room id mime data).effects = [] ∧
        (g.acceptUpdate room id mime data).answer.isRefusal = true := by
    intro o ho heq
    rw [heq]
    exact ⟨rfl, rfl, ho⟩
  cases he : g.sessions.get? id with
  | none => exact .inl (refused .unknownSession rfl (by simp [acceptUpdate, he]))
  | some e =>
    by_cases hrole : e.role = .authenticated
    · by_cases hcur : g.history.isCurrent (.of mime data)
      · exact .inl (refused .echo rfl (acceptUpdate_of_current he hrole hcur room))
      · rw [Bool.not_eq_true] at hcur
        cases hfl : e.inFlight with
        | some s =>
          exact .inl (refused .stale rfl (by simp [acceptUpdate, he, hrole, hcur, hfl]))
        | none =>
          exact .inr ⟨e, rfl, hrole, hfl, hcur, acceptUpdate_of_new he hrole hfl hcur room⟩
    · exact .inl (refused .unauthenticated rfl (by simp [acceptUpdate, he, hrole]))

/-- A content of this machine changes nothing, or it is not the current one and is taken up. -/
theorem publishLocal_cases (g : Group) (room : SessionId → Room) (mime : String) (data : Bytes) :
    (g.history.isCurrent (.of mime data) = true ∧
        g.publishLocal room mime data = { group := g, answer := none }) ∨
      (g.history.isCurrent (.of mime data) = false ∧
        g.publishLocal room mime data =
          (g.accept room mime data .local none).map fun a => some a.1) := by
  by_cases hcur : g.history.isCurrent (.of mime data)
  · exact .inl ⟨hcur, by simp [publishLocal, hcur]⟩
  · rw [Bool.not_eq_true] at hcur
    exact .inr ⟨hcur, by simp [publishLocal, hcur, Outcome.map]⟩

theorem get?_sessions_flushed (g : Group) (id : SessionId) (seq : Nat) (j : SessionId) :
    (g.flushed id seq).sessions.get? j =
      if id = j then
        (g.sessions.get? j).map fun e =>
          if e.inFlight = some seq then { e with inFlight := none } else e
      else g.sessions.get? j :=
  Table.get?_modify g.sessions id j _

/-! ## Discovery -/

/-- Discovery changes nothing but the discovered devices. -/
theorem onDiscovery_group (g : Group) (me : LocalIdentity) (port : UInt16)
    (machine : List Net.IpAddress) (e : DiscoveryEvent) :
    ∃ t, (g.onDiscovery me port machine e).group = { g with discovered := t } := by
  unfold onDiscovery
  cases e with
  | added d =>
    simp only
    split
    · exact ⟨g.discovered, rfl⟩
    · split
      · split
        · exact ⟨g.discovered, rfl⟩
        · exact ⟨_, rfl⟩
      · exact ⟨_, rfl⟩
  | removed d =>
    simp only
    split
    · exact ⟨_, rfl⟩
    · exact ⟨g.discovered, rfl⟩

/-! ## Any operation -/

/-- What is so of a group after each change that an operation can make is so after the operation. A
content that is not taken up changes nothing. -/
theorem perform_cases {P : Group → Prop} {g : Group} {room : SessionId → Room} {op : Operation}
    (same : P g) (promote : ∀ id, op = .promote id → P (g.promote id).group)
    (remove : ∀ id reason, op = .remove id reason → P (g.remove id reason).group)
    (kickAll : ∀ order, op = .kickAll order → P (g.kickAll order).group)
    (accept : ∀ mime data origin except?, P (g.accept room mime data origin except?).group)
    (flushed : ∀ id seq, P (g.flushed id seq))
    (discovery : ∀ t, P { g with discovered := t }) : P (g.perform room op).group := by
  cases op with
  | promote id => exact promote id rfl
  | remove id reason => exact remove id reason rfl
  | kickAll order => exact kickAll order rfl
  | acceptUpdate id mime data =>
    show P (g.acceptUpdate room id mime data).group
    obtain ⟨hsame, -⟩ | ⟨e, -, -, -, -, htaken⟩ := acceptUpdate_cases g room id mime data
    · rw [hsame]
      exact same
    · rw [htaken]
      exact accept mime data (.remote e.device) (some id)
  | publishLocal mime data =>
    show P (g.publishLocal room mime data).group
    obtain ⟨-, hsame⟩ | ⟨-, htaken⟩ := publishLocal_cases g room mime data
    · rw [hsame]
      exact same
    · rw [htaken]
      exact accept mime data .local none
  | flushed id seq => exact flushed id seq
  | discovery me port machine e =>
    obtain ⟨t, ht⟩ := onDiscovery_group g me port machine e
    exact ht ▸ discovery t

end SharedClipboard.Group
