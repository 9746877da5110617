import SharedClipboard.Proofs.Node.Consent
import SharedClipboard.Simulation.NodeRun

/-!
# What is sent to the members can be decoded by them

**Theorem (`clipboard_frames_decode`).** Under every configuration that a node starts with, a
content that the user publishes is refused as too large exactly if the codec of the configuration
would not decode the packet that carries it back to it, and then nothing happens. And whatever
happens to the node and its sessions, every frame with an update that waits for a member, be it from
the user or from another member, is decoded by that codec to the content that was recorded under its
number.

There are two ways into the group, and on both of them a content fits the codec: a content that is
published was checked, and one that a session reports was read by the session's reader, which
decodes with the same codec (`Fitting`). Decoding undoes the encoding of what fits.
-/

namespace SharedClipboard

/-- A packet fits a codec exactly if the codec decodes its encoding to it. -/
theorem Codec.fits_iff_decode {c : Codec} {p : Packet} :
    c.Fits p ↔ c.decode p.encode = .ok p :=
  ⟨Codec.decode_encode, fun h => (Codec.encode_of_decode h).2⟩

/-! ## Publishing -/

theorem Codec.checkContent_error {c : Codec} {mime : String} {data : Bytes} {e : Error}
    (h : c.checkContent mime data = .error e) :
    ∃ field size max, e = .payloadTooLarge field size max := by
  have of_field : ∀ {field : String} {size : Nat}, c.checkField field size = .error e →
      ∃ field size max, e = .payloadTooLarge field size max := by
    intro field size hfield
    simp only [checkField] at hfield
    split at hfield <;> cases hfield
    exact ⟨_, _, _, rfl⟩
  unfold checkContent at h
  cases hmime : c.checkField "mime type" (Text.utf8 mime).length with
  | error e' =>
    rw [hmime] at h
    cases h
    exact of_field hmime
  | ok u =>
    rw [hmime] at h
    exact of_field h

/-- A content is refused as too large exactly if it would not be decoded. -/
theorem Codec.refuses_iff {c : Codec} {mime : String} {data : Bytes} :
    (∃ e, c.checkContent mime data = .error e) ↔
      c.decode (Packet.syncRequest mime data).encode ≠ .ok (.syncRequest mime data) := by
  rw [Ne, ← Codec.fits_iff_decode, ← Codec.checkContent_eq_ok_iff]
  cases c.checkContent mime data <;> simp

namespace Simulation.NodeRun

theorem carryOut_publish_of_error {r : NodeRun} (hr : r.stopped = false) {mime : String}
    {data : Bytes} {e : Error} (h : r.config.codec.checkContent mime data = .error e) :
    r.carryOut (.publish mime data) = (r, .failed e) := by
  simp [carryOut, hr, h]

theorem carryOut_publish_of_ok {r : NodeRun} (hr : r.stopped = false) {mime : String}
    {data : Bytes} (h : r.config.codec.checkContent mime data = .ok ()) :
    ∃ seq, (r.carryOut (.publish mime data)).2 = .published seq := by
  simp [carryOut, hr, h]

/-- Publishing fails exactly if the content would not be decoded, and then nothing changes. -/
theorem carryOut_publish_iff {r : NodeRun} (hr : r.stopped = false) (mime : String)
    (data : Bytes) :
    (r.config.codec.decode (Packet.syncRequest mime data).encode ≠ .ok (.syncRequest mime data) ↔
      ∃ field size max,
        (r.carryOut (.publish mime data)).2 = .failed (.payloadTooLarge field size max)) ∧
      ((∃ e, (r.carryOut (.publish mime data)).2 = .failed e) →
        (r.carryOut (.publish mime data)).1 = r) := by
  rw [← Codec.refuses_iff]
  cases hcheck : r.config.codec.checkContent mime data with
  | error e =>
    rw [carryOut_publish_of_error hr hcheck]
    obtain ⟨field, size, max, rfl⟩ := Codec.checkContent_error hcheck
    exact ⟨⟨fun _ => ⟨field, size, max, rfl⟩, fun _ => ⟨_, rfl⟩⟩, fun _ => rfl⟩
  | ok u =>
    obtain ⟨seq, hseq⟩ := carryOut_publish_of_ok hr hcheck
    rw [hseq]
    simp

end Simulation.NodeRun

namespace Station

variable {first s s' : Station} {hs : List Happening} {h : Happening}

/-! ## The invariant -/

/-- In a run, the frame carries a content that was the current one at some moment, under the number
of the frame, and the codec decodes the frame to it. -/
def Recorded (first : Station) (hs : List Happening) (c : Codec) (x : Outgoing) : Prop :=
  ∃ before after s u, hs = before ++ after ∧ Run first before s ∧
    s.node.group.history.current = some u ∧ x.seq = some u.seq ∧
    c.decode x.frame = .ok (.syncRequest u.mime u.data)

/-- The content that a command brings. -/
def content? : Node.Command → Option (String × Bytes)
  | .publish mime data | .report _ (.update mime data) => some (mime, data)
  | _ => none

/-- What waits for a session fits, and of what it has to send every content was recorded. -/
structure Fit (first : Station) (hs : List Happening) (c : Codec) (t : SessionTask) : Prop where
  pending : ∀ p, .packet p ∈ t.pending → c.Fits p
  outbox : ∀ x ∈ t.outbox.queue, Recorded first hs c x ∨ SessionTask.IsControl x

/-- All that is on its way to the group fits the codec, and what left it was recorded. -/
structure Fitting (first : Station) (hs : List Happening) (s : Station) : Prop where
  config : s.config = first.config
  honest : s.node.group.history.Honest
  queue : ∀ c ∈ s.queue, ∀ mime data, content? c = some (mime, data) →
    first.config.codec.Fits (.syncRequest mime data)
  lines : ∀ id l t, s.lines.get? id = some l → l.task = some t →
    Fit first hs first.config.codec t

theorem fitting_start {c : Config} {me : LocalIdentity} {port : UInt16}
    {machine : List Net.IpAddress} {registry : Registry}
    (hstart : start c me port machine registry = .ok first) : Fitting first [] first := by
  obtain ⟨-, rfl⟩ := start_spec hstart
  exact
    { config := rfl
      honest := History.honest_fresh c.historyLimit
      queue := fun c hc => by cases hc
      lines := fun id l t hl => by cases hl }

/-! ## A step -/

theorem Recorded.snoc {c : Codec} {x : Outgoing} (hx : Recorded first hs c x) (h : Happening) :
    Recorded first (hs ++ [h]) c x := by
  obtain ⟨before, after, s, u, rfl, hrun, hcurrent, hseq, hdecode⟩ := hx
  exact ⟨before, after ++ [h], s, u, by simp, hrun, hcurrent, hseq, hdecode⟩

theorem Fit.snoc {c : Codec} {t : SessionTask} (ht : Fit first hs c t) (h : Happening) :
    Fit first (hs ++ [h]) c t :=
  ⟨ht.pending, fun x hx => (ht.outbox x hx).imp_left fun hrecorded => hrecorded.snoc h⟩

theorem Fit.push {c : Codec} {t : SessionTask} (ht : Fit first hs c t) {x : Outgoing}
    (hx : Recorded first hs c x) :
    Fit first hs c { t with outbox := t.outbox.push x } := by
  refine ⟨ht.pending, fun y hy => ?_⟩
  obtain hold | rfl := Outbox.mem_push hy
  · exact ht.outbox y hold
  · exact .inl hx

theorem Fit.kick {c : Codec} {t : SessionTask} (ht : Fit first hs c t) : Fit first hs c t.kick := by
  unfold SessionTask.kick
  split
  · exact ⟨ht.pending, ht.outbox⟩
  · exact ht

/-- A frame that the node sends carries the content that it has just recorded. -/
theorem recorded_of_deliver (hrun : Run first hs s) (hfitting : Fitting first hs s)
    (hstep : Step s h s') {nonce : Bytes} {c : Node.Command} {rest : List Node.Command}
    {id : SessionId} {x : Outgoing} (hh : h = .handles nonce) (hqueue : s.queue = c :: rest)
    (hx : .group (.deliver id x) ∈ (s.node.handle s.room c).effects) :
    Recorded first (hs ++ [h]) first.config.codec x := by
  obtain ⟨u, hcurrent, rfl, hbrings⟩ := Node.delivered_handle hfitting.honest hx
  have hfits : first.config.codec.Fits (.syncRequest u.mime u.data) := by
    refine hfitting.queue c (by rw [hqueue]; exact List.mem_cons_self) u.mime u.data ?_
    obtain rfl | ⟨j, rfl⟩ := hbrings <;> rfl
  refine ⟨hs ++ [h], [], s', u, (List.append_nil _).symm, hrun.step hstep, ?_, rfl,
    Codec.decode_encode hfits⟩
  rw [(Handles.next ⟨nonce, rest, hh, hqueue⟩ hstep).1, hcurrent]

/-- What runs on a line fits after whatever a step makes of it. -/
theorem fit_changed (hrun : Run first hs s) (hfitting : Fitting first hs s) (hstep : Step s h s')
    {id : SessionId} {l l' : Line} (hl : s.lines.get? id = some l) (hchanged : Changed s h id l l')
    {t' : SessionTask} (ht' : l'.task = some t') :
    Fit first (hs ++ [h]) first.config.codec t' := by
  have hold : ∀ t, l.task = some t → Fit first (hs ++ [h]) first.config.codec t :=
    fun t ht => (hfitting.lines id l t hl ht).snoc h
  -- Every change of the line in turn: what it adds to the outbox is recorded or fits.
  induction hchanged generalizing t' with
  | same => exact hold t' ht'
  | delivered _ hh hqueue hx ih =>
    obtain ⟨t, ht, rfl⟩ := Option.map_eq_some_iff.1 ht'
    exact (ih ht).push (recorded_of_deliver hrun hfitting hstep hh hqueue hx)
  | kicked _ ih =>
    obtain ⟨t, ht, rfl⟩ := Option.map_eq_some_iff.1 ht'
    exact (ih ht).kick
  | @started l₁ nonce c rest direction =>
    cases ht'
    have hstarts := (SessionTask.starts_of_start s.config.sessionSettings direction l₁.wire.mine
      l₁.wire.theirs s.config.outboxCapacity s.now nonce).2
    refine ⟨fun p hp => ?_, fun x hx => .inr (hstarts.outbox x hx)⟩
    rw [hstarts.pending] at hp
    cases hp
  | moved _ hm =>
    cases ht'
    obtain ⟨t, ht, hmoves, -⟩ := Line.move_spec hm
    rw [hfitting.config] at hmoves
    refine ⟨fun p hp => ?_, fun x hx => ?_⟩
    · exact (hmoves.pending p hp).elim ((hold t ht).pending p) fun hfits => hfits
    · exact (hmoves.outbox x hx).elim ((hold t ht).outbox x) .inr
  | answered =>
    obtain ⟨t, ht, rfl⟩ := Option.map_eq_some_iff.1 ht'
    exact ⟨(hold t ht).pending, (hold t ht).outbox⟩
  | changed conn => exact hold t' ht'

/-- A content that the node is told of fits. -/
theorem fits_of_tells (hfitting : Fitting first hs s) {c : Node.Command} (hc : Tells s h c)
    {mime : String} {data : Bytes} (hcontent : content? c = some (mime, data)) :
    first.config.codec.Fits (.syncRequest mime data) := by
  cases hc with
  | @opens _ _ _ how => cases how <;> cases hcontent
  | dialFails | discovers | stops => cases hcontent
  | publishes hok =>
    cases hcontent
    rw [hfitting.config] at hok
    exact Codec.checkContent_eq_ok_iff.1 hok
  | @moves id part l m r hl hm hr =>
    cases r with
    | authenticated | flushed _ | closed _ => cases hcontent
    | update mime data =>
      cases hcontent
      obtain ⟨t, ht, -, ⟨-, x, i, hdrives⟩ | hplain⟩ := Line.move_spec hm
      · obtain ⟨a, ha, hnote⟩ := (hdrives.notes _).1 hr
        have hupdate : .update mime data ∈
            (x.step ⟨s.now, t.outbox.room, s.registry.trusts⟩ i).actions := by
          cases a <;> cases hnote
          exact ha
        have hreceived := hdrives.received _ (Session.received_of_update hupdate)
        exact (hfitting.lines id l t hl ht).pending _ hreceived
      · obtain ⟨seq, heq⟩ | ⟨reason, heq⟩ := hplain _ hr <;> cases heq

theorem Fitting.step (hrun : Run first hs s) (hfitting : Fitting first hs s) (hstep : Step s h s') :
    Fitting first (hs ++ [h]) s' where
  config := (config_next hstep).trans hfitting.config
  honest := by
    obtain hsame | ⟨c, -, hnode⟩ := node_next hstep
    · rw [hsame]
      exact hfitting.honest
    · rw [hnode]
      exact Node.honest_handle hfitting.honest s.room c
  queue c hc mime data hcontent := by
    obtain hold | hnew := queue_next hstep hc
    · exact hfitting.queue c hold mime data hcontent
    · exact fits_of_tells hfitting hnew hcontent
  lines id l t hl ht := by
    obtain ⟨l₁, hl₁, hchanged⟩ | ⟨w, conn, how, -, rfl⟩ := line_was hstep hl
    · exact fit_changed hrun hfitting hstep hl₁ hchanged ht
    · cases ht

theorem fitting_run {c : Config} {me : LocalIdentity} {port : UInt16}
    {machine : List Net.IpAddress} {registry : Registry}
    (hstart : start c me port machine registry = .ok first) (hrun : Run first hs s) :
    Fitting first hs s := by
  induction hrun with
  | start => exact fitting_start hstart
  | step hrun hstep ih => exact ih.step hrun hstep

/-- **What members are sent.** Let a node start under a configuration. A content that is published
on it is refused as too large exactly if the codec of the configuration would not decode the packet
that carries it back to it, and then nothing is changed by it. And whatever happens to the node and
its sessions, a frame that waits in the outbox of a session is a packet of the session's own without
a content, or it is decoded by the codec to a content that became the current one under the number
of the frame. -/
theorem clipboard_frames_decode {c : Config} {me : LocalIdentity} {port : UInt16}
    {machine : List Net.IpAddress} {registry : Registry} {first : Station}
    (hstart : start c me port machine registry = .ok first) :
    (∀ (r : Simulation.NodeRun), r.config = c → r.stopped = false → ∀ mime data,
      (c.codec.decode (Packet.syncRequest mime data).encode ≠ .ok (.syncRequest mime data) ↔
        ∃ field size max,
          (r.carryOut (.publish mime data)).2 = .failed (.payloadTooLarge field size max)) ∧
        ((∃ e, (r.carryOut (.publish mime data)).2 = .failed e) →
          (r.carryOut (.publish mime data)).1 = r)) ∧
    ∀ hs s, Run first hs s →
      (∀ mime data, c.codec.decode (Packet.syncRequest mime data).encode ≠
          .ok (.syncRequest mime data) → ∀ s', Step s (.publishes mime data) s' → s' = s) ∧
        ∀ id l t, s.lines.get? id = some l → l.task = some t →
          ∀ x ∈ t.outbox.queue, Recorded first hs c.codec x ∨ SessionTask.IsControl x := by
  have hconfig : first.config = c := by rw [(start_spec hstart).2]
  refine ⟨fun r hr hrunning mime data => ?_, fun hs s hrun => ⟨fun mime data hbad s' hstep => ?_,
    fun id l t hl ht x hx => ?_⟩⟩
  · rw [← hr]
    exact Simulation.NodeRun.carryOut_publish_iff hrunning mime data
  · cases hstep with
    | refuses => rfl
    | publishes hok =>
      rw [(fitting_run hstart hrun).config, hconfig] at hok
      exact absurd (Codec.decode_encode (Codec.checkContent_eq_ok_iff.1 hok)) hbad
  · have hfit := (fitting_run hstart hrun).lines id l t hl ht
    rw [hconfig] at hfit
    exact hfit.outbox x hx

/-- The device that joined is sent what the user publishes. -/
def greeting : List Happening := intrusion ++ [.publishes "text/plain" [104, 105], .handles []]

theorem run_greeting : ∃ s l t x, Run lonely greeting s ∧ s.lines.get? 0 = some l ∧
    l.task = some t ∧ x ∈ t.outbox.queue ∧ x.seq = some 1 := by
  have hplay : ((lonely.play? greeting).any fun s => ((s.lines.get? 0).bind (·.task)).any fun t =>
      t.outbox.queue.any (·.seq = some 1)) = true := by decide +kernel
  obtain ⟨s, hs, hend⟩ := Option.any_eq_true _ _ |>.1 hplay
  obtain ⟨t, ht, hqueue⟩ := Option.any_eq_true _ _ |>.1 hend
  obtain ⟨l, hl, ht⟩ := Option.bind_eq_some_iff.1 ht
  obtain ⟨x, hx, hseq⟩ := List.any_eq_true.1 hqueue
  exact ⟨s, l, t, x, run_of_play hs, hl, ht, hx, of_decide_eq_true hseq⟩

/-- One byte more than the codec takes. -/
def oversized : Bytes := List.replicate (Codec.defaultMaxPayload + 1) 0

/-- What the user publishes reaches the member, and what is too long reaches nobody. -/
theorem clipboard_frames_decode_greeting :
    start (.default "/home/user") { name := "alpha" } 17394 [] {} = .ok lonely ∧
      (∃ s l t x, Run lonely greeting s ∧ s.lines.get? 0 = some l ∧ l.task = some t ∧
        x ∈ t.outbox.queue ∧ x.seq = some 1 ∧ Recorded lonely greeting .default x) ∧
      ∀ r : Simulation.NodeRun, r.config = .default "/home/user" → r.stopped = false →
        ∃ field size max, (r.carryOut (.publish "text/plain" oversized)).2 =
          .failed (.payloadTooLarge field size max) := by
  have hstart : start (.default "/home/user") { name := "alpha" } 17394 [] {} = .ok lonely := rfl
  obtain ⟨hpublish, hframes⟩ := clipboard_frames_decode hstart
  obtain ⟨s, l, t, x, hrun, hl, ht, hx, hseq⟩ := run_greeting
  refine ⟨hstart, ⟨s, l, t, x, hrun, hl, ht, hx, hseq, ?_⟩, fun r hr hrunning => ?_⟩
  · obtain hrecorded | ⟨p, rfl, -⟩ := (hframes greeting s hrun).2 0 l t hl ht x hx
    · exact hrecorded
    · cases hseq
  · refine (hpublish r hr hrunning "text/plain" oversized).1.1 fun hdecode => ?_
    have hfits := (Codec.fits_iff_decode.2 hdecode oversized (by simp [Packet.fields])).1
    rw [oversized, List.length_replicate] at hfits
    exact absurd hfits (Nat.not_succ_le_self _)

end Station

end SharedClipboard
