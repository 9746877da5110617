import SharedClipboard.Proofs.Node.Handle
import SharedClipboard.Proofs.Play

/-!
# What comes back from the clipboard

The service puts what peers send on the clipboard of the machine, and the monitor finds it there. A
change that was found waits until it is published, and meanwhile the node goes on (`Sharing`). The
user copies nothing here, so whatever the service publishes was received before; the group should
drop it as the current content.

**Theorem (`local_updates_came_back`).** In every run, an update that is recorded as the user's own
has the text of one that a peer sent, and that one had another type or was not the last. And if
every update is plain text, is put on the clipboard before the monitor looks, and comes only when no
change is under way, no update is recorded as the user's own.

The type is lost on the clipboard: HTML comes back as plain text, which is another content
(`markup_comes_back`).
-/

namespace SharedClipboard

/-! ## What a command records -/

/-- The content that is put on the clipboard when the event is served. -/
def Event.toShow? : Event → Option (String × Bytes)
  | .clipboardUpdated _ mime data (.remote _) => some (mime, data)
  | _ => none

namespace Node

variable {n : Node} {room : SessionId → Room} {c : Command}

theorem toShow?_of_quiet {es : List Group.Effect} (h : ∀ x ∈ es, x.spreads = false) :
    (es.filterMap Group.Effect.event?).filterMap Event.toShow? = [] := by
  refine List.filterMap_eq_nil_iff.2 fun e he => ?_
  obtain ⟨x, hx, hevent⟩ := List.mem_filterMap.1 he
  have hquiet := h x hx
  cases x with
  | deliver _ _ | kick _ => cases hevent
  | announce e' =>
    cases hevent
    cases e <;> first | rfl | cases hquiet

/-- A command leaves the history as it is, or it records a content that a session reports or the
user publishes, and which is not the current one. Only the first kind is to be put on the
clipboard. -/
theorem handle_records (n : Node) (room : SessionId → Room) (c : Command) :
    ((n.handle room c).node.group.history = n.group.history ∧
        (Service.eventsOf (n.handle room c).effects).filterMap Event.toShow? = []) ∨
      (∃ id mime data d, c = .report id (.update mime data) ∧
        n.group.history.isCurrent (.of mime data) = false ∧
        (n.handle room c).node.group.history =
          (n.group.history.record mime data (.remote d)).2 ∧
        (Service.eventsOf (n.handle room c).effects).filterMap Event.toShow? = [(mime, data)]) ∨
      ∃ mime data, c = .publish mime data ∧ n.group.history.isCurrent (.of mime data) = false ∧
        (n.handle room c).node.group.history = (n.group.history.record mime data .local).2 ∧
        (Service.eventsOf (n.handle room c).effects).filterMap Event.toShow? = [] := by
  cases hop : n.operation? c with
  | none =>
    refine .inl ⟨?_, ?_⟩
    · obtain hsame | ⟨id, e, -, hattach⟩ := group_of_connection hop room
      · rw [hsame]
      · rw [hattach]
        rfl
    · obtain ⟨a, -, h⟩ | ⟨a, d, -, h⟩ | h := effects_of_connection hop room
      all_goals
        rw [h]
        rfl
  | some op =>
    have hgroup := (handle_of_operation hop room).1
    rw [eventsOf_handle hop, hgroup]
    obtain ⟨mime, data, origin, except?, htakes⟩ | ⟨hsame, hquiet, -⟩ :=
      Group.takes_or_keeps n.group room op
    · obtain ⟨htaken, heffects, -, hnew⟩ := Group.perform_of_takes htakes room
      have hhistory : (n.group.perform room op).group.history =
          (n.group.history.record mime data origin).2 := congrArg Group.history htaken
      rw [heffects, Group.events_accept]
      cases htakes with
      | @remote id e _ _ _ _ _ _ =>
        exact .inr (.inl ⟨id, mime, data, e.device, eq_ofOperation hop, hnew, hhistory, rfl⟩)
      | own _ => exact .inr (.inr ⟨mime, data, eq_ofOperation hop, hnew, hhistory, rfl⟩)
    · exact .inl ⟨hsame, toShow?_of_quiet hquiet⟩

end Node

/-! ## The monitor -/

namespace Monitor

/-- The changes that were found and not taken. -/
def underWay (m : Monitor) : List Change :=
  m.channel ++ match m.stage with
    | .handingOver c => [c]
    | _ => []

theorem underWay_handOver {m : Monitor} {now : Time} {c : Change}
    (h : c ∈ (m.handOver now).underWay) : c ∈ m.underWay := by
  unfold handOver at h
  split at h
  · rename_i change hstage
    simp only [underWay, hstage]
    split at h
    · exact List.mem_append_left _ (by simpa [underWay] using h)
    · split at h
      · simpa [underWay] using h
      · simpa [underWay, hstage] using h
  · exact h

end Monitor

/-- What the monitor makes of a text that it finds. -/
def Change.ofText (t : String) : Change :=
  ⟨SystemClipboard.plainText, Text.utf8 t, .of SystemClipboard.plainText (Text.utf8 t)⟩

namespace SystemClipboard

variable {b b' : SystemClipboard} {mime : String} {data : Bytes}

theorem refuse_bind_ok {α : Type} {fault : Option String} {e : Except Error α} {r : α}
    (h : (refuse fault >>= fun _ => e) = .ok r) : fault = none ∧ e = .ok r := by
  cases fault with
  | none => exact ⟨rfl, h⟩
  | some _ => cases h

theorem text_of_read (h : b.read = .ok (some (mime, data))) :
    ∃ t, b.text = some t ∧ mime = plainText ∧ data = Text.utf8 t := by
  obtain ⟨-, h⟩ := refuse_bind_ok h
  obtain ⟨-, h⟩ := refuse_bind_ok h
  obtain ⟨t, ht, heq⟩ := Option.map_eq_some_iff.1 (Except.ok.inj h)
  cases heq
  exact ⟨t, (Option.filter_eq_some_iff.1 ht).1, rfl, rfl⟩

theorem text_of_textOf {t : String} (h : textOf mime data = .ok t) :
    isText mime = true ∧ data = Text.utf8 t := by
  unfold textOf at h
  split at h
  · rename_i htype
    split at h
    · rename_i s hs
      cases h
      exact ⟨htype, Text.ofUtf8?_eq_some_iff.1 hs⟩
    · cases h
  · cases h

/-- A content that was put on the clipboard was text. -/
theorem of_write (h : b.write mime data = .ok b') :
    ∃ t, isText mime = true ∧ data = Text.utf8 t ∧ b' = { b with text := some t } := by
  unfold write at h
  cases htext : textOf mime data with
  | error _ =>
    rw [htext] at h
    cases h
  | ok t =>
    rw [htext] at h
    obtain ⟨htype, hdata⟩ := text_of_textOf htext
    obtain ⟨-, h⟩ := refuse_bind_ok h
    obtain ⟨-, h⟩ := refuse_bind_ok h
    cases h
    exact ⟨t, htype, hdata, rfl⟩

/-- Plain text can be put on a clipboard that does not fail. -/
theorem write_plain (hopen : b.openFault = none) (hwrite : b.writeFault = none) (t : String) :
    b.write plainText (Text.utf8 t) = .ok { b with text := some t } := by
  have htext : textOf plainText (Text.utf8 t) = .ok t := by
    rw [textOf, if_pos (by decide), Text.ofUtf8?_utf8]
  simp only [write, htext, hopen, hwrite]
  rfl

end SystemClipboard

theorem Watcher.ofText_of_check {w w' : Watcher} {b : SystemClipboard} {c : Change}
    (h : w.check b = (.ok (some c), w')) : ∃ t, b.text = some t ∧ c = .ofText t := by
  unfold check at h
  split at h
  · cases h
  · cases h
  · rename_i mime data hread
    obtain ⟨t, ht, rfl, rfl⟩ := SystemClipboard.text_of_read hread
    simp only at h
    split at h
    · cases h
    · cases h
      exact ⟨t, ht, rfl⟩

theorem Service.look_spec (s : Service) (now : Time) : (s.look now).node = s.node ∧
    (s.look now).events = s.events ∧ (s.look now).clipboard = s.clipboard := by
  unfold look
  split <;> exact ⟨rfl, rfl, rfl⟩

/-- A change that is under way after a look was before, or is the text that was found. -/
theorem Service.mem_underWay_look {s : Service} {now : Time} {c : Change}
    (h : c ∈ (s.look now).monitor.underWay) :
    c ∈ s.monitor.underWay ∨ ∃ t, s.clipboard.text = some t ∧ c = .ofText t := by
  unfold look at h
  split at h
  · have hlooked := Monitor.underWay_handOver h
    unfold Monitor.look at hlooked
    split at hlooked
    · rename_i change watcher hcheck
      obtain hold | hnew := List.mem_append.1 hlooked
      · exact .inl (List.mem_append_left _ hold)
      · rw [List.mem_singleton] at hnew
        exact .inr (hnew ▸ Watcher.ofText_of_check hcheck)
    · exact .inl (List.mem_append_left _ (by simpa [Monitor.underWay] using hlooked))
  · exact .inl (Monitor.underWay_handOver h)

/-! ## Runs -/

/-- A service, and the change that it has taken and not published. -/
structure Sharing where
  service : Service
  hand : Option Change := none

namespace Sharing

/-- What can happen while the user copies nothing. -/
inductive Step where
  /-- The node is told anything but that the clipboard changed. -/
  | told (room : SessionId → Room) (c : Node.Command)
  /-- The monitor looks. -/
  | looks (now : Time)
  /-- The service takes a change. -/
  | takes
  /-- The change that was taken is published. -/
  | publishes (room : SessionId → Room)
  /-- The service serves an event. -/
  | shows
  /-- The service was too slow, and the oldest events are lost. -/
  | misses (n : Nat)

def isPublish : Node.Command → Bool
  | .publish _ _ => true
  | _ => false

/-- What a step leads to, if it can be made. While a change is being published the service serves
nothing else. -/
def step? (x : Sharing) : Step → Option Sharing
  | .told room c =>
    if isPublish c then none else some { x with service := (x.service.tell room c).2 }
  | .looks now => some { x with service := x.service.look now }
  | .takes =>
    match x.hand, x.service.monitor.channel with
    | none, c :: rest =>
      some ⟨{ x.service with monitor := { x.service.monitor with channel := rest } }, some c⟩
    | _, _ => none
  | .publishes room => x.hand.map fun c => ⟨(x.service.publish room c).2.2, none⟩
  | .shows =>
    if x.hand.isSome then none
    else x.service.serveEvent.map fun r => { x with service := r.2 }
  | .misses n =>
    if x.hand.isSome then none
    else some { x with service := { x.service with events := x.service.events.drop n } }

/-- Serving a change is taking it and publishing it. -/
theorem steps_of_serveChange {s s' : Service} {room : SessionId → Room} {o : Terminal.Output}
    {es : List Node.Effect} (h : s.serveChange room = some (o, es, s')) :
    ((⟨s, none⟩ : Sharing).step? .takes).bind (·.step? (.publishes room)) = some ⟨s', none⟩ := by
  unfold Service.serveChange at h
  split at h
  · cases h
  · rename_i c rest hchannel
    simp only [step?, hchannel, Option.bind_some, Option.map_some]
    rw [Option.some.inj h]

/-- A service that has just started, on a machine whose clipboard is empty. -/
def fresh (c : Config) (me : LocalIdentity) (port : UInt16) (now : Time) : Sharing :=
  ⟨.fresh (.fresh c me port) c.codec {} now, none⟩

def history (x : Sharing) : History := x.service.node.group.history

/-- The contents that are to be put on the clipboard. -/
def waiting (x : Sharing) : List (String × Bytes) := x.service.events.filterMap Event.toShow?

/-- The changes that were found and not published. -/
def changes (x : Sharing) : List Change := x.hand.toList ++ x.service.monitor.underWay

/-- One step of a run. -/
structure Moment where
  before : Sharing
  step : Step
  after : Sharing

/-- The update that was recorded at this moment. -/
def Moment.recorded? (m : Moment) : Option Snapshot :=
  if m.after.history.nextSeq = m.before.history.nextSeq then none else m.after.history.current

def recorded (log : List Moment) : List Snapshot := log.filterMap Moment.recorded?

/-- The moments of a run, and where it leads. -/
inductive Run (first : Sharing) : List Moment → Sharing → Prop where
  | start : Run first [] first
  | step {log : List Moment} {x y : Sharing} (a : Step) : Run first log x → x.step? a = some y →
      Run first (log ++ [⟨x, a, y⟩]) y

variable {x y : Sharing} {a : Step} {log : List Moment} {room : SessionId → Room}

theorem recorded?_of_same (a : Step) (h : y.history = x.history) :
    Moment.recorded? ⟨x, a, y⟩ = none :=
  if_pos (congrArg History.nextSeq h)

theorem recorded?_of_record (a : Step) (hh : x.history.Honest) {mime : String} {data : Bytes}
    {origin : Origin} (h : y.history = (x.history.record mime data origin).2) :
    Moment.recorded? ⟨x, a, y⟩ = some (x.history.next mime data origin) := by
  have hseq : y.history.nextSeq ≠ x.history.nextSeq := by
    rw [h]
    exact Nat.succ_ne_self _
  rw [Moment.recorded?, if_neg hseq, h, History.current_record hh]

theorem recorded_snoc (log : List Moment) (m : Moment) :
    recorded (log ++ [m]) = recorded log ++ m.recorded?.toList := by
  rw [recorded, List.filterMap_append, recorded, List.filterMap_cons, List.filterMap_nil]
  cases m.recorded? <;> rfl

/-! ## What a step does -/

theorem waiting_tell (x : Sharing) (room : SessionId → Room) (c : Node.Command) :
    (x.service.tell room c).2.events.filterMap Event.toShow? = x.waiting ++
      (Service.eventsOf (x.service.node.handle room c).effects).filterMap Event.toShow? :=
  List.filterMap_append

theorem told_spec {c : Node.Command} (h : x.step? (.told room c) = some y) :
    y.hand = x.hand ∧ y.service.monitor = x.service.monitor ∧
      y.service.clipboard = x.service.clipboard ∧
      ((y.history = x.history ∧ y.waiting = x.waiting) ∨
        ∃ mime data d, x.history.isCurrent (.of mime data) = false ∧
          y.history = (x.history.record mime data (.remote d)).2 ∧
          y.waiting = x.waiting ++ [(mime, data)]) := by
  simp only [step?] at h
  split at h
  · cases h
  · rename_i hother
    cases h
    refine ⟨rfl, rfl, rfl, ?_⟩
    have hwaiting := x.waiting_tell room c
    obtain ⟨hsame, hnone⟩ | ⟨id, mime, data, d, -, hnew, hrecord, hshow⟩ | ⟨mime, data, rfl, -⟩ :=
      x.service.node.handle_records room c
    · rw [hnone, List.append_nil] at hwaiting
      exact .inl ⟨hsame, hwaiting⟩
    · rw [hshow] at hwaiting
      exact .inr ⟨mime, data, d, hnew, hrecord, hwaiting⟩
    · exact absurd rfl hother

theorem publishes_spec (h : x.step? (.publishes room) = some y) :
    ∃ c, x.hand = some c ∧ y.hand = none ∧ y.service.monitor = x.service.monitor ∧
      y.service.clipboard = x.service.clipboard ∧ y.waiting = x.waiting ∧
      (y.history = x.history ∨ (x.history.isCurrent (.of c.mime c.data) = false ∧
        y.history = (x.history.record c.mime c.data .local).2)) := by
  obtain ⟨c, hc, rfl⟩ := Option.map_eq_some_iff.1 h
  refine ⟨c, hc, rfl, ?_⟩
  unfold Service.publish
  split
  · exact ⟨rfl, rfl, rfl, .inl rfl⟩
  · have hwaiting := x.waiting_tell room (.publish c.mime c.data)
    obtain ⟨hsame, hnone⟩ | ⟨id, mime, data, d, hreport, -⟩ |
        ⟨mime, data, heq, hnew, hrecord, hnone⟩ :=
      x.service.node.handle_records room (.publish c.mime c.data)
    · rw [hnone, List.append_nil] at hwaiting
      exact ⟨rfl, rfl, hwaiting, .inl hsame⟩
    · cases hreport
    · cases heq
      rw [hnone, List.append_nil] at hwaiting
      exact ⟨rfl, rfl, hwaiting, .inr ⟨hnew, hrecord⟩⟩

/-- What serving an event does to the clipboard. -/
theorem shows_spec (h : x.step? .shows = some y) :
    ∃ e rest, x.service.events = e :: rest ∧ x.hand = none ∧
      y = ⟨{ x.service with
        clipboard := (Terminal.onEvent x.service.clipboard e).2, events := rest }, none⟩ := by
  obtain ⟨s, hand⟩ := x
  simp only [step?] at h
  cases hand with
  | some c => cases h
  | none =>
    obtain ⟨r, hr, rfl⟩ := Option.map_eq_some_iff.1 h
    unfold Service.serveEvent at hr
    split at hr
    · cases hr
    · rename_i e rest hevents
      cases hr
      exact ⟨e, rest, hevents, rfl, rfl⟩

/-- A content that a served event puts on the clipboard was to be put there. -/
theorem text_of_onEvent {b : SystemClipboard} {e : Event} {t : String}
    (h : (Terminal.onEvent b e).2.text = some t) : b.text = some t ∨
      ∃ mime, SystemClipboard.isText mime = true ∧ e.toShow? = some (mime, Text.utf8 t) := by
  cases e with
  | clipboardUpdated seq mime data origin =>
    cases origin with
    | «local» => exact .inl h
    | remote d =>
      simp only [Terminal.onEvent] at h
      split at h
      · rename_i b' hwrite
        obtain ⟨s, htype, hdata, rfl⟩ := SystemClipboard.of_write hwrite
        cases h
        exact .inr ⟨mime, htype, by rw [hdata]; rfl⟩
      · exact .inl h
  | _ => exact .inl h

theorem onEvent_of_none (b : SystemClipboard) {e : Event} (h : e.toShow? = none) :
    (Terminal.onEvent b e).2 = b := by
  cases e with
  | clipboardUpdated seq mime data origin =>
    cases origin with
    | «local» => rfl
    | remote d => cases h
  | _ => rfl

theorem onEvent_of_plain {b : SystemClipboard} {e : Event} {t : String}
    (hb : b.openFault = none ∧ b.writeFault = none)
    (h : e.toShow? = some (SystemClipboard.plainText, Text.utf8 t)) :
    (Terminal.onEvent b e).2 = { b with text := some t } := by
  cases e with
  | clipboardUpdated seq mime data origin =>
    cases origin with
    | «local» => cases h
    | remote d =>
      cases h
      simp only [Terminal.onEvent, SystemClipboard.write_plain hb.1 hb.2]
  | _ => cases h

/-- Where things come from in a step: what is to be shown was received, what is on the clipboard was
to be shown, what was found was on the clipboard, and what is published was found. -/
structure Flow (x y : Sharing) : Prop where
  history : y.history = x.history ∨
    (∃ mime data d, x.history.isCurrent (.of mime data) = false ∧
      y.history = (x.history.record mime data (.remote d)).2) ∨
    ∃ c ∈ x.changes, x.history.isCurrent (.of c.mime c.data) = false ∧
      y.history = (x.history.record c.mime c.data .local).2
  waiting : ∀ p ∈ y.waiting, p ∈ x.waiting ∨
    ∃ d, y.history = (x.history.record p.1 p.2 (.remote d)).2
  clipboard : ∀ t, y.service.clipboard.text = some t → x.service.clipboard.text = some t ∨
    ∃ mime, SystemClipboard.isText mime = true ∧ (mime, Text.utf8 t) ∈ x.waiting
  changes : ∀ c ∈ y.changes, c ∈ x.changes ∨
    ∃ t, x.service.clipboard.text = some t ∧ c = .ofText t

theorem flow (h : x.step? a = some y) : Flow x y := by
  -- Each step moves things one place further and brings in nothing but what a peer sends.
  cases a with
  | told room c =>
    obtain ⟨hhand, hmonitor, hclipboard, hkept⟩ := told_spec h
    refine ⟨hkept.imp And.left fun hrecord => .inl ?_, fun p hp => ?_, fun t ht => ?_,
      fun c hc => ?_⟩
    · obtain ⟨mime, data, d, hnew, hhistory, -⟩ := hrecord
      exact ⟨mime, data, d, hnew, hhistory⟩
    · obtain ⟨-, hwaiting⟩ | ⟨mime, data, d, -, hhistory, hwaiting⟩ := hkept <;> rw [hwaiting] at hp
      · exact .inl hp
      · refine (List.mem_append.1 hp).imp_right fun hnew => ⟨d, ?_⟩
        rw [List.mem_singleton.1 hnew, hhistory]
    · exact .inl (hclipboard ▸ ht)
    · rw [changes, hhand, hmonitor] at hc
      exact .inl hc
  | looks now =>
    cases h
    obtain ⟨hnode, hevents, hclipboard⟩ := x.service.look_spec now
    refine ⟨.inl (congrArg (·.group.history) hnode), fun p hp => .inl ?_, fun t ht => .inl ?_,
      fun c hc => ?_⟩
    · simpa only [waiting, hevents] using hp
    · simpa only [hclipboard] using ht
    · obtain hhand | hfound := List.mem_append.1 hc
      · exact .inl (List.mem_append_left _ hhand)
      · exact (Service.mem_underWay_look hfound).imp_left (List.mem_append_right _)
  | takes =>
    simp only [step?] at h
    split at h
    · rename_i c rest hhand hchannel
      cases h
      refine ⟨.inl rfl, fun p hp => .inl hp, fun t ht => .inl ht, fun c' hc => .inl ?_⟩
      simpa [changes, Monitor.underWay, hhand, hchannel] using hc
    · cases h
  | publishes room =>
    obtain ⟨c, hc, hhand, hmonitor, hclipboard, hwaiting, hkept⟩ := publishes_spec h
    refine ⟨hkept.imp_right fun hrecord => .inr ⟨c, ?_, hrecord⟩, fun p hp => .inl (hwaiting ▸ hp),
      fun t ht => .inl (hclipboard ▸ ht), fun c' hc' => .inl ?_⟩
    · rw [changes, hc]
      exact List.mem_cons_self
    · rw [changes, hhand, hmonitor] at hc'
      exact List.mem_append_right _ hc'
  | shows =>
    obtain ⟨e, rest, hevents, hhand, rfl⟩ := shows_spec h
    have hwaiting : x.waiting = [e].filterMap Event.toShow? ++ rest.filterMap Event.toShow? := by
      rw [waiting, hevents, ← List.filterMap_append]
      rfl
    refine ⟨.inl rfl, fun p hp => .inl ?_, fun t ht => ?_, fun c hc => .inl ?_⟩
    · rw [hwaiting]
      exact List.mem_append_right _ hp
    · refine (text_of_onEvent ht).imp_right fun ⟨mime, htype, hshow⟩ => ⟨mime, htype, ?_⟩
      rw [hwaiting, List.filterMap_cons, hshow]
      exact List.mem_cons_self
    · exact List.mem_append_right _ hc
  | misses n =>
    simp only [step?] at h
    split at h
    · cases h
    · cases h
      refine ⟨.inl rfl, fun p hp => .inl ?_, fun t ht => .inl ht, fun c hc => .inl hc⟩
      exact ((List.drop_sublist _ _).filterMap _).subset hp

/-! ## Where an update comes from -/

/-- A peer sent the text. -/
def Sent (us : List Snapshot) (data : Bytes) : Prop :=
  ∃ v ∈ us, (∃ d, v.origin = .remote d) ∧ SystemClipboard.isText v.mime = true ∧ v.data = data

/-- The update is plain text that a peer sent before, as text of another type or not as the last
update. -/
def CameBack (earlier : List Snapshot) (u : Snapshot) : Prop :=
  u.mime = SystemClipboard.plainText ∧ ∃ v ∈ earlier, (∃ d, v.origin = .remote d) ∧
    SystemClipboard.isText v.mime = true ∧ v.data = u.data ∧
    (v.mime ≠ SystemClipboard.plainText ∨ earlier.getLast? ≠ some v)

theorem Sent.append {us : List Snapshot} {data : Bytes} (h : Sent us data) (vs : List Snapshot) :
    Sent (us ++ vs) data := by
  obtain ⟨v, hv, hsent⟩ := h
  exact ⟨v, List.mem_append_left _ hv, hsent⟩

/-- Everything that is on its way was sent by a peer, and what came back of it is accounted for. -/
structure Traced (us : List Snapshot) (x : Sharing) : Prop where
  honest : x.history.Honest
  current : x.history.current = us.getLast?
  waiting : ∀ p ∈ x.waiting, ∃ v ∈ us, (∃ d, v.origin = .remote d) ∧ v.mime = p.1 ∧ v.data = p.2
  clipboard : ∀ t, x.service.clipboard.text = some t → Sent us (Text.utf8 t)
  changes : ∀ c ∈ x.changes, c.mime = SystemClipboard.plainText ∧ Sent us c.data
  locals : ∀ earlier u, earlier ++ [u] <+: us → u.origin = .local → CameBack earlier u

theorem traced_fresh (c : Config) (me : LocalIdentity) (port : UInt16) (now : Time) :
    Traced [] (fresh c me port now) where
  honest := History.honest_fresh _
  current := rfl
  waiting _ hp := nomatch hp
  clipboard _ ht := nomatch ht
  changes _ hc := nomatch hc
  locals earlier u h := by simp at h

/-- A step keeps the trace if the updates that it records go with the history. -/
theorem Traced.step {us vs : List Snapshot} (h : Traced us x) (hf : Flow x y)
    (hhonest : y.history.Honest) (hcurrent : y.history.current = (us ++ vs).getLast?)
    (hreceived : ∀ mime data d, y.history = (x.history.record mime data (.remote d)).2 →
      x.history.next mime data (.remote d) ∈ vs)
    (hlocals : ∀ earlier u, earlier ++ [u] <+: us ++ vs → u.origin = .local → CameBack earlier u) :
    Traced (us ++ vs) y where
  honest := hhonest
  current := hcurrent
  waiting p hp := by
    obtain hold | ⟨d, hrecord⟩ := hf.waiting p hp
    · obtain ⟨v, hv, hfrom⟩ := h.waiting p hold
      exact ⟨v, List.mem_append_left _ hv, hfrom⟩
    · exact ⟨_, List.mem_append_right _ (hreceived _ _ d hrecord), ⟨d, rfl⟩, rfl, rfl⟩
  clipboard t ht := by
    obtain hold | ⟨mime, htype, hwaiting⟩ := hf.clipboard t ht
    · exact (h.clipboard t hold).append vs
    · obtain ⟨v, hv, hfrom, rfl, hdata⟩ := h.waiting _ hwaiting
      exact ⟨v, List.mem_append_left _ hv, hfrom, htype, hdata⟩
  changes c hc := by
    obtain hold | ⟨t, ht, rfl⟩ := hf.changes c hc
    · exact (h.changes c hold).imp_right (·.append vs)
    · exact ⟨rfl, (h.clipboard t ht).append vs⟩
  locals := hlocals

/-- What is published comes from a peer, and is not what the peer sent if that is the last
update. -/
theorem Traced.cameBack {us : List Snapshot} {c : Change} (h : Traced us x) (hc : c ∈ x.changes)
    (hnew : x.history.isCurrent (.of c.mime c.data) = false) :
    CameBack us (x.history.next c.mime c.data .local) := by
  obtain ⟨hplain, v, hv, hfrom, htype, hdata⟩ := h.changes c hc
  refine ⟨hplain, v, hv, hfrom, htype, hdata, ?_⟩
  by_contra hlast
  obtain ⟨hmime, hlast⟩ : v.mime = SystemClipboard.plainText ∧ us.getLast? = some v := by
    simpa only [not_or, not_not] using hlast
  rw [History.isCurrent_eq h.honest, History.content, h.current, hlast, Option.map_some,
    Option.any_some, hmime, hdata, hplain] at hnew
  simp at hnew

theorem Traced.record {us : List Snapshot} {mime : String} {data : Bytes} {origin : Origin}
    (h : Traced us x) (hf : Flow x y) (hrecord : y.history = (x.history.record mime data origin).2)
    (hlocal : origin = .local → CameBack us (x.history.next mime data origin)) :
    Traced (us ++ [x.history.next mime data origin]) y := by
  have hcurrent : y.history.current = some (x.history.next mime data origin) := by
    rw [hrecord, History.current_record h.honest]
  refine h.step hf (hrecord ▸ h.honest.record mime data origin) (by rw [hcurrent]; simp)
    (fun mime' data' d hsame => ?_) (fun earlier u hearlier hu => ?_)
  · rw [hsame, History.current_record h.honest] at hcurrent
    exact List.mem_singleton.2 (Option.some.inj hcurrent)
  · obtain hlast | hold := List.prefix_concat_iff.1 hearlier
    · obtain ⟨rfl, hone⟩ := List.append_inj' hlast rfl
      obtain rfl := List.singleton_inj.1 hone
      exact hlocal hu
    · exact h.locals earlier u hold hu

/-- The updates that are recorded in a step go with the history. -/
theorem Traced.turn {us : List Snapshot} (h : Traced us x) (hstep : x.step? a = some y) :
    Traced (us ++ (Moment.recorded? ⟨x, a, y⟩).toList) y := by
  have hf := flow hstep
  obtain hsame | ⟨mime, data, d, -, hrecord⟩ | ⟨c, hc, hnew, hrecord⟩ := hf.history
  · rw [recorded?_of_same a hsame]
    refine h.step hf (hsame ▸ h.honest) ?_ (fun mime data d hrecord => ?_) (fun earlier u => ?_)
    · rw [hsame, h.current, Option.toList_none, List.append_nil]
    · exact absurd (congrArg History.nextSeq (hsame.symm.trans hrecord)) (Nat.succ_ne_self _).symm
    · rw [Option.toList_none, List.append_nil]
      exact h.locals earlier u
  · rw [recorded?_of_record a h.honest hrecord]
    exact h.record hf hrecord nofun
  · rw [recorded?_of_record a h.honest hrecord]
    exact h.record hf hrecord fun _ => h.cameBack hc hnew

theorem traced_run {c : Config} {me : LocalIdentity} {port : UInt16} {now : Time}
    (h : Run (fresh c me port now) log x) : Traced (recorded log) x := by
  induction h with
  | start => exact traced_fresh c me port now
  | step a _ hstep ih =>
    rw [recorded_snoc]
    exact ih.turn hstep

/-! ## Runs in which nothing comes too early -/

/-- The clipboard gives the content back as it was. -/
def IsPlain (p : String × Bytes) : Prop :=
  p.1 = SystemClipboard.plainText ∧ (Text.ofUtf8? p.2).isSome = true

instance (p : String × Bytes) : Decidable (IsPlain p) := inferInstanceAs (Decidable (_ ∧ _))

theorem IsPlain.exists_text {p : String × Bytes} (h : IsPlain p) :
    ∃ t, p = (SystemClipboard.plainText, Text.utf8 t) := by
  obtain ⟨t, ht⟩ := Option.isSome_iff_exists.1 h.2
  exact ⟨t, Prod.ext h.1 (Text.ofUtf8?_eq_some_iff.1 ht)⟩

/-- A peer sends only plain text, and only when no change is under way; the monitor looks only when
nothing is still to be put on the clipboard; and no event with a content is lost. -/
def Moment.Orderly (m : Moment) : Prop :=
  match m.step with
  | .told _ _ => ∀ v ∈ m.recorded?, IsPlain (v.mime, v.data) ∧ m.before.changes = []
  | .looks _ => m.before.waiting = []
  | .misses n => ∀ e ∈ m.before.service.events.take n, e.toShow? = none
  | _ => True

instance (m : Moment) : Decidable m.Orderly :=
  match m with
  | ⟨_, .told _ _, _⟩ => inferInstanceAs (Decidable (∀ v ∈ _, IsPlain (_, _) ∧ _))
  | ⟨_, .looks _, _⟩ => inferInstanceAs (Decidable (_ = []))
  | ⟨_, .misses _, _⟩ => inferInstanceAs (Decidable (∀ e ∈ List.take _ _, _))
  | ⟨_, .takes, _⟩ | ⟨_, .publishes _, _⟩ | ⟨_, .shows, _⟩ => inferInstanceAs (Decidable True)

/-- The content that will be on the clipboard once everything is put there. -/
def newest (x : Sharing) : Option (String × Bytes) :=
  x.waiting.getLast?.or
    (x.service.clipboard.text.map fun t => (SystemClipboard.plainText, Text.utf8 t))

/-- What holds while nothing comes too early: whatever is found is the current content. -/
structure Calm (us : List Snapshot) (x : Sharing) : Prop where
  honest : x.history.Honest
  remote : ∀ u ∈ us, u.origin ≠ .local
  faultless : x.service.clipboard.openFault = none ∧ x.service.clipboard.writeFault = none
  plain : ∀ p ∈ x.waiting, IsPlain p
  newest : x.newest = x.history.content
  current : ∀ c ∈ x.changes, x.history.isCurrent (.of c.mime c.data) = true

theorem calm_fresh (c : Config) (me : LocalIdentity) (port : UInt16) (now : Time) :
    Calm [] (fresh c me port now) where
  honest := History.honest_fresh _
  remote _ hu := nomatch hu
  faultless := ⟨rfl, rfl⟩
  plain _ hp := nomatch hp
  newest := rfl
  current _ hc := nomatch hc

/-- A step that leaves the history alone keeps calm if what will be on the clipboard stays. -/
theorem Calm.same {us : List Snapshot} (h : Calm us x) (hsame : y.history = x.history)
    (hfaults : y.service.clipboard.openFault = none ∧ y.service.clipboard.writeFault = none)
    (hplain : ∀ p ∈ y.waiting, p ∈ x.waiting) (hnewest : y.newest = x.newest)
    (hcurrent : ∀ c ∈ y.changes, x.history.isCurrent (.of c.mime c.data) = true) :
    Calm (us ++ (Moment.recorded? ⟨x, a, y⟩).toList) y := by
  rw [recorded?_of_same a hsame, Option.toList_none, List.append_nil]
  exact ⟨hsame ▸ h.honest, h.remote, hfaults, fun p hp => h.plain p (hplain p hp),
    hnewest.trans (h.newest.trans (congrArg History.content hsame.symm)),
    fun c hc => hsame ▸ hcurrent c hc⟩

theorem newest_congr (hwaiting : y.waiting = x.waiting)
    (hclipboard : y.service.clipboard = x.service.clipboard) : y.newest = x.newest := by
  rw [newest, hwaiting, hclipboard, newest]

theorem Calm.told {us : List Snapshot} {c : Node.Command} (h : Calm us x)
    (hstep : x.step? (.told room c) = some y) (ho : Moment.Orderly ⟨x, .told room c, y⟩) :
    Calm (us ++ (Moment.recorded? ⟨x, .told room c, y⟩).toList) y := by
  obtain ⟨hhand, hmonitor, hclipboard, hkept⟩ := told_spec hstep
  have hchanges : y.changes = x.changes := by rw [changes, hhand, hmonitor, changes]
  obtain ⟨hsame, hwaiting⟩ | ⟨mime, data, d, -, hrecord, hwaiting⟩ := hkept
  · exact h.same hsame (hclipboard ▸ h.faultless) (fun p hp => hwaiting ▸ hp)
      (newest_congr hwaiting hclipboard) fun c hc => h.current c (hchanges ▸ hc)
  · have hrecorded := recorded?_of_record (.told room c) h.honest hrecord
    obtain ⟨hplain, hnone⟩ := ho _ hrecorded
    rw [hrecorded]
    refine ⟨hrecord ▸ h.honest.record _ _ _, fun u hu => ?_, hclipboard ▸ h.faultless,
      fun p hp => ?_, ?_, fun c hc => ?_⟩
    · obtain hold | hnew := List.mem_append.1 hu
      · exact h.remote u hold
      · rw [List.mem_singleton.1 hnew]
        exact nofun
    · rw [hwaiting] at hp
      obtain hold | hnew := List.mem_append.1 hp
      · exact h.plain p hold
      · rw [List.mem_singleton.1 hnew]
        exact hplain
    · rw [hrecord, History.content_record h.honest, Sharing.newest, hwaiting, List.getLast?_concat]
      rfl
    -- An update comes only when no change is under way, so none of them gets out of date.
    · rw [hchanges, hnone] at hc
      cases hc

/-- Once everything is put on the clipboard, what the monitor finds is the current content. -/
theorem Calm.looks {us : List Snapshot} {now : Time} (h : Calm us x)
    (hstep : x.step? (.looks now) = some y) (ho : x.waiting = []) :
    Calm (us ++ (Moment.recorded? ⟨x, .looks now, y⟩).toList) y := by
  cases hstep
  obtain ⟨hnode, hevents, hclipboard⟩ := x.service.look_spec now
  have hwaiting : ({ x with service := x.service.look now } : Sharing).waiting = x.waiting := by
    simp only [waiting, hevents]
  refine h.same (congrArg (·.group.history) hnode) (hclipboard ▸ h.faultless)
    (fun p hp => hwaiting ▸ hp) (newest_congr hwaiting hclipboard) fun c hc => ?_
  obtain hhand | hfound := List.mem_append.1 hc
  · exact h.current c (List.mem_append_left _ hhand)
  · obtain hold | ⟨t, ht, rfl⟩ := Service.mem_underWay_look hfound
    · exact h.current c (List.mem_append_right _ hold)
    · have hcontent : x.history.content = some (SystemClipboard.plainText, Text.utf8 t) := by
        rw [← h.newest, Sharing.newest, ho, ht]
        rfl
      rw [History.isCurrent_eq h.honest, hcontent]
      exact beq_self_eq_true _

theorem Calm.publishes {us : List Snapshot} (h : Calm us x)
    (hstep : x.step? (.publishes room) = some y) :
    Calm (us ++ (Moment.recorded? ⟨x, .publishes room, y⟩).toList) y := by
  obtain ⟨c, hc, hhand, hmonitor, hclipboard, hwaiting, hkept⟩ := publishes_spec hstep
  have hcurrent := h.current c (by rw [changes, hc]; exact List.mem_cons_self)
  obtain hsame | ⟨hnew, -⟩ := hkept
  · refine h.same hsame (hclipboard ▸ h.faultless) (fun p hp => hwaiting ▸ hp)
      (newest_congr hwaiting hclipboard) fun c' hc' => h.current c' ?_
    rw [changes, hhand, hmonitor] at hc'
    exact List.mem_append_right _ hc'
  · rw [hcurrent] at hnew
    cases hnew

theorem Calm.shows {us : List Snapshot} (h : Calm us x) (hstep : x.step? .shows = some y) :
    Calm (us ++ (Moment.recorded? ⟨x, .shows, y⟩).toList) y := by
  obtain ⟨e, rest, hevents, hhand, rfl⟩ := shows_spec hstep
  have hchanges : ∀ c ∈ x.service.monitor.underWay,
      x.history.isCurrent (.of c.mime c.data) = true :=
    fun c hc => h.current c (List.mem_append_right _ hc)
  have hwaiting : x.waiting = e.toShow?.toList ++ rest.filterMap Event.toShow? := by
    rw [waiting, hevents, List.filterMap_cons]
    cases e.toShow? <;> rfl
  -- The content on the clipboard and the contents that wait change together, so the newest stays.
  cases hshow : e.toShow? with
  | none =>
    rw [hshow, Option.toList_none, List.nil_append] at hwaiting
    have hkept := onEvent_of_none x.service.clipboard hshow
    have hfaultless : (Terminal.onEvent x.service.clipboard e).2.openFault = none ∧
        (Terminal.onEvent x.service.clipboard e).2.writeFault = none := by
      rw [hkept]
      exact h.faultless
    exact h.same rfl hfaultless (fun p hp => hwaiting ▸ hp)
      (newest_congr hwaiting.symm hkept) hchanges
  | some p =>
    rw [hshow, Option.toList_some, List.singleton_append] at hwaiting
    obtain ⟨t, rfl⟩ := (h.plain p (hwaiting ▸ List.mem_cons_self)).exists_text
    have hput := onEvent_of_plain h.faultless hshow
    refine h.same rfl (hput ▸ h.faultless) (fun p hp => hwaiting ▸ List.mem_cons_of_mem _ hp) ?_
      hchanges
    rw [Sharing.newest, Sharing.newest, hwaiting, List.getLast?_cons, waiting, hput]
    cases (rest.filterMap Event.toShow?).getLast? <;> rfl

theorem Calm.misses {us : List Snapshot} {n : Nat} (h : Calm us x)
    (hstep : x.step? (.misses n) = some y)
    (ho : ∀ e ∈ x.service.events.take n, e.toShow? = none) :
    Calm (us ++ (Moment.recorded? ⟨x, .misses n, y⟩).toList) y := by
  have hwaiting : x.waiting = (x.service.events.drop n).filterMap Event.toShow? := by
    rw [waiting, ← List.take_append_drop n x.service.events, List.filterMap_append,
      List.filterMap_eq_nil_iff.2 ho, List.nil_append, List.take_append_drop]
  simp only [step?] at hstep
  split at hstep
  · cases hstep
  · cases hstep
    exact h.same rfl h.faultless (fun p hp => hwaiting ▸ hp) (newest_congr hwaiting.symm rfl)
      fun c hc => h.current c hc

theorem Calm.takes {us : List Snapshot} (h : Calm us x) (hstep : x.step? .takes = some y) :
    Calm (us ++ (Moment.recorded? ⟨x, .takes, y⟩).toList) y := by
  simp only [step?] at hstep
  split at hstep
  · rename_i c rest hhand hchannel
    cases hstep
    refine h.same rfl h.faultless (fun p hp => hp) rfl fun c' hc => h.current c' ?_
    simpa [changes, Monitor.underWay, hhand, hchannel] using hc
  · cases hstep

theorem Calm.turn {us : List Snapshot} (h : Calm us x) (hstep : x.step? a = some y)
    (ho : Moment.Orderly ⟨x, a, y⟩) : Calm (us ++ (Moment.recorded? ⟨x, a, y⟩).toList) y := by
  cases a with
  | told room c => exact h.told hstep ho
  | looks now => exact h.looks hstep ho
  | takes => exact h.takes hstep
  | publishes room => exact h.publishes hstep
  | shows => exact h.shows hstep
  | misses n => exact h.misses hstep ho

theorem calm_run {c : Config} {me : LocalIdentity} {port : UInt16} {now : Time}
    (h : Run (fresh c me port now) log x) (ho : ∀ m ∈ log, m.Orderly) : Calm (recorded log) x := by
  induction h with
  | start => exact calm_fresh c me port now
  | step a _ hstep ih =>
    have hbefore := ih fun m hm => ho m (List.mem_append_left _ hm)
    rw [recorded_snoc]
    exact hbefore.turn hstep (ho _ (List.mem_append_right _ (List.mem_singleton_self _)))

/-- **Own updates.** A service starts on a machine whose clipboard is empty, and the user copies
nothing. In every run an update that is recorded as the user's own is plain text that a peer sent
before, and the update of the peer either had another type or was not the last one any more. If
peers send only plain text, each only when no change is under way, and everything they send is put
on the clipboard before the monitor looks again, then no update is recorded as the user's own. -/
theorem local_updates_came_back {c : Config} {me : LocalIdentity} {port : UInt16} {now : Time}
    (h : Run (fresh c me port now) log x) :
    (∀ earlier u, earlier ++ [u] <+: recorded log → u.origin = .local →
        u.mime = SystemClipboard.plainText ∧ ∃ v ∈ earlier, (∃ d, v.origin = .remote d) ∧
          SystemClipboard.isText v.mime = true ∧ v.data = u.data ∧
          (v.mime ≠ SystemClipboard.plainText ∨ earlier.getLast? ≠ some v)) ∧
      ((∀ m ∈ log, m.Orderly) → ∀ u ∈ recorded log, u.origin ≠ .local) :=
  ⟨(traced_run h).locals, fun ho => (calm_run h ho).remote⟩

/-! ## Playing steps -/

/-- The moments of a run with the given steps, and where it leads. -/
def play (first : Sharing) (as : List Step) : Option (List Moment × Sharing) :=
  play? (fun r a => (r.2.step? a).map fun y => (r.1 ++ [⟨r.2, a, y⟩], y)) ([], first) as

theorem run_of_play {first : Sharing} {as : List Step} (h : play first as = some (log, x)) :
    Run first log x := by
  refine of_play? (P := fun _ r => Run first r.1 r.2) (fun {_ _ a _} hr hmove => ?_) .start h
  obtain ⟨y, hstep, rfl⟩ := Option.map_eq_some_iff.1 hmove
  exact hr.step a hstep

/-- A node with the usual configuration. -/
def studio : Sharing := fresh (Config.default "/home") ⟨"studio", none⟩ 17394 0

def desk : Device := { address := .v4 0xC000020A, name := "desk", port := 17394 }

def roomy : SessionId → Room := fun _ => .free

/-- A device that was dialed joins and sends a content, which is put on the clipboard. Then the
monitor looks, and the change that it finds is published. -/
def receiving (mime : String) : List Step :=
  [.told roomy (.connected ⟨0, { ip := desk.address, port := desk.port }, none⟩ desk),
    .told roomy (.report 0 .authenticated), .told roomy (.report 0 (.update mime (Text.utf8 "x"))),
    .shows, .shows, .looks 500, .takes, .publishes roomy]

/-- What an update is, its number and digest aside. -/
def contentAndOrigin (u : Snapshot) : String × Bytes × Origin := (u.mime, u.data, u.origin)

/-- Plain text that a peer sends is found on the clipboard, and dropped when it is published. -/
theorem local_updates_came_back_plain : ∃ log x, Run studio log x ∧ log.length = 8 ∧
    (∀ m ∈ log, m.Orderly) ∧
    (recorded log).map contentAndOrigin =
      [("text/plain", [120], .remote desk)] ∧ ∀ u ∈ recorded log, u.origin ≠ .local := by
  have hplay : (play studio (receiving "text/plain")).any (fun r =>
      decide (r.1.length = 8 ∧ (∀ m ∈ r.1, m.Orderly) ∧
        (recorded r.1).map contentAndOrigin = [("text/plain", [120], .remote desk)])) = true := by
    decide +kernel
  obtain ⟨⟨log, x⟩, hr, hlog⟩ := (Option.any_eq_true _ _).1 hplay
  obtain ⟨hlength, horderly, hrecorded⟩ := of_decide_eq_true hlog
  have hrun : Run studio log x := run_of_play hr
  exact ⟨log, x, hrun, hlength, horderly, hrecorded, (local_updates_came_back hrun).2 horderly⟩

/-- **HTML comes back.** A peer sends HTML and nothing else happens. The monitor finds it on the
clipboard as plain text, and it is recorded as the user's own. -/
theorem markup_comes_back : ∃ log x, Run studio log x ∧
    (recorded log).map contentAndOrigin =
      [("text/html", [120], .remote desk), ("text/plain", [120], .local)] := by
  have hplay : (play studio (receiving "text/html")).any (fun r =>
      (recorded r.1).map contentAndOrigin ==
        [("text/html", [120], .remote desk), ("text/plain", [120], .local)]) = true := by
    decide +kernel
  obtain ⟨⟨log, x⟩, hr, hrecorded⟩ := (Option.any_eq_true _ _).1 hplay
  exact ⟨log, x, run_of_play hr, beq_iff_eq.1 hrecorded⟩

end Sharing

end SharedClipboard
