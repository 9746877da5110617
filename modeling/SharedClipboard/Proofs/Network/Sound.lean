import SharedClipboard.Proofs.Network.Basic

/-!
# What holds in every network

A run that starts quiet keeps the network sound (`sound_run`): every frame on a line decodes to the
update that it carries, only nodes that are connected have frames for each other, and an update that
a group takes for under way waits in the outbox or in the reports of its line. So unless a network
is quiet, something can happen in it that no user does (`Sound.progress`).

Everything that happens is one frame leaving its place on a line, followed by one group that takes
up a content or does not. `Sound.line_spread_of_onward` and `Sound.line_spread_of_not` say where the
frames go when it does.
-/

namespace SharedClipboard

variable {N : Type}

/-- The nodes to which a content is sent on, by a node that got it from another or from its user. -/
def Wiring.Onward (w : Wiring N) (u : N) (from? : Option N) (b : N) : Prop :=
  w.graph.Adj u b ∧ some b ≠ from?

theorem Wiring.adj_iff {w : Wiring N} {u v : N} : w.graph.Adj u v ↔ ∃ id, w.session u v = some id :=
  Option.isSome_iff_exists

/-- The updates that wait to be written, and the ones that wait to be reported. -/
def Line.unreported (l : Line) : List Nat := l.outbox.filterMap (·.seq) ++ l.reports

theorem Line.empty_of_nil {l : Line} (hout : l.outbox = []) (hwire : l.wire = [])
    (hreports : l.reports = []) : l.Empty := by
  cases l
  subst hout hwire hreports
  rfl

namespace Network

variable {w : Wiring N} {c : Codec} {n : Network N}

/-! ## Soundness -/

/-- What waits in the outboxes has one property, and what is on the wires another. -/
structure Frames (p : Outgoing → Prop) (q : Bytes → Prop) (line : N → N → Line) : Prop where
  outboxes : ∀ u v, ∀ x ∈ (line u v).outbox, p x
  wires : ∀ u v, ∀ b ∈ (line u v).wire, q b

theorem frames_of_empty (p : Outgoing → Prop) (q : Bytes → Prop) {line : N → N → Line}
    (hempty : ∀ u v, (line u v).Empty) : Frames p q line where
  outboxes u v x hx := by
    rw [hempty u v] at hx
    cases hx
  wires u v b hb := by
    rw [hempty u v] at hb
    cases hb

/-- The frame carries a clipboard content that the nodes can decode. -/
def Carries (c : Codec) (frame : Bytes) : Prop :=
  ∃ mime data, c.Fits (.syncRequest mime data) ∧ frame = (Packet.syncRequest mime data).encode

/-- What holds of the lines at every moment: the frames carry contents, and nodes that are not
connected have none for each other. -/
structure Proper (w : Wiring N) (c : Codec) (line : N → N → Line) : Prop extends
    Frames (fun x => Carries c x.frame ∧ x.seq.isSome) (Carries c) line where
  apart : ∀ u v, w.session u v = none → (line u v).Empty

/-- What holds of a network at every moment. -/
structure Sound (w : Wiring N) (c : Codec) (n : Network N) : Prop where
  joined : n.Joined w
  inStep : ∀ u, (n.group u).InStep
  honest : ∀ u, (n.group u).history.Honest
  proper : Proper w c n.line
  /-- What is under way to a session waits in its outbox or in its reports. -/
  tracked : ∀ u v id e seq, w.session u v = some id → (n.group u).sessions.get? id = some e →
    e.inFlight = some seq → seq ∈ (n.line u v).unreported

theorem sound_start (hreach : ∀ u, ∃ limit, Group.Reachable limit (n.group u))
    (hjoined : n.Joined w) (hquiet : n.Quiet w) : Sound w c n where
  joined := hjoined
  inStep u := (hreach u).elim fun _ h => h.inStep
  honest u := (hreach u).elim fun _ h => h.honest
  proper := ⟨frames_of_empty _ _ hquiet.lines, fun u v _ => hquiet.lines u v⟩
  tracked u v id e seq hid he hfl := by
    rw [hquiet.settled u v id e hid he] at hfl
    cases hfl

/-- The session with a neighbour is authenticated. -/
theorem Sound.session (h : Sound w c n) {u v : N} {id : SessionId}
    (hid : w.session u v = some id) :
    ∃ e, (n.group u).sessions.get? id = some e ∧ e.role = .authenticated := by
  obtain ⟨k, hk⟩ := (h.joined u id).2 ⟨v, hid⟩
  obtain ⟨e, he, hrole, -⟩ := (h.inStep u k id).1 hk
  exact ⟨e, he, hrole⟩

/-- The node sends a content to the sessions with the nodes that it is sent on to. -/
theorem Sound.mem_recipients (h : Sound w c n) {u b : N} {id : SessionId}
    (hid : w.session u b = some id) (from? : Option N) :
    id ∈ (n.group u).recipients (fun _ => .free) (from?.bind (w.session u)) ↔
      w.Onward u from? b := by
  rw [(h.inStep u).mem_recipients, Wiring.Onward, Wiring.adj_iff]
  have hmember := (h.joined u id).2 ⟨b, hid⟩
  have hother : some id ≠ from?.bind (w.session u) ↔ some b ≠ from? := by
    cases from? with
    | none => simp
    | some q =>
      refine not_congr ⟨fun heq => ?_, fun heq => ?_⟩
      · exact congrArg some (w.distinct u b q id hid heq.symm)
      · cases heq
        exact hid.symm
  exact ⟨fun hmem => ⟨⟨id, hid⟩, hother.1 hmem.2.1⟩, fun hon => ⟨hmember, hother.2 hon.2, rfl⟩⟩

/-- The update that the next content makes on a node. -/
def nextFrame (n : Network N) (u : N) (mime : String) (data : Bytes) (origin : Origin) :
    Outgoing :=
  Group.updateFrame ((n.group u).history.next mime data origin)

variable [DecidableEq N]

/-! ## Changes of a network -/

theorem line_settle {α : Type} (n : Network N) (w : Wiring N) (u : N) (o : Group.Outcome α)
    (a b : N) : (n.settle w u o).line a b =
      if a = u then (n.line a b).queue (framesFor (w.session a b) o.effects) else n.line a b := by
  by_cases h : a = u
  · subst h
    simp [settle]
  · simp [settle, h]

theorem settle_of_same {α : Type} (n : Network N) (w : Wiring N) (u : N) {o : Group.Outcome α}
    (hgroup : o.group = n.group u) (heffects : o.effects = []) : n.settle w u o = n := by
  have hframes : ∀ v, (n.line u v).queue (framesFor (w.session u v) o.effects) = n.line u v := by
    intro v
    rw [heffects]
    cases w.session u v <;> simp [framesFor, Line.queue]
  rw [settle, hgroup, funext hframes, Function.update_eq_self, Function.update_eq_self]

theorem line_onLine (n : Network N) (u v : N) (f : Line → Line) (a b : N) :
    (n.onLine u v f).line a b = if a = u ∧ b = v then f (n.line a b) else n.line a b := by
  simp only [onLine, Function.update_apply]
  by_cases ha : a = u
  · subst ha
    by_cases hb : b = v
    · simp [hb]
    · simp [hb]
  · simp [ha]

/-- A node takes up a content that came from a neighbour or from its own user. -/
def spread (n : Network N) (w : Wiring N) (u : N) (mime : String) (data : Bytes) (origin : Origin)
    (from? : Option N) : Network N :=
  n.settle w u
    ((n.group u).accept (fun _ => .free) mime data origin (from?.bind (w.session u)))

theorem group_spread_of_ne (n : Network N) (w : Wiring N) {u a : N} (h : a ≠ u) (mime : String)
    (data : Bytes) (origin : Origin) (from? : Option N) :
    (n.spread w u mime data origin from?).group a = n.group a :=
  Function.update_of_ne h _ _

theorem group_spread_self (n : Network N) (w : Wiring N) (u : N) (mime : String) (data : Bytes)
    (origin : Origin) (from? : Option N) :
    (n.spread w u mime data origin from?).group u =
      ((n.group u).accept (fun _ => .free) mime data origin
        (from?.bind (w.session u))).group :=
  Function.update_self u _ _

/-- A user publishes what is on the clipboard already, or the node takes it up. -/
theorem afterPublish_cases (n : Network N) (w : Wiring N) (u : N) (mime : String) (data : Bytes) :
    ((n.group u).history.isCurrent (.of mime data) = true ∧
        n.afterPublish w u mime data = { move := .publish u mime data, network := n }) ∨
      ((n.group u).history.isCurrent (.of mime data) = false ∧
        n.afterPublish w u mime data =
          { move := .publish u mime data
            network := n.spread w u mime data .local none
            effects := ((n.group u).accept (fun _ => .free) mime data .local none).effects
            published := some (n.group u).history.nextSeq }) := by
  obtain ⟨hcur, hsame⟩ | ⟨hcur, htaken⟩ :=
    Group.publishLocal_cases (n.group u) (fun _ => .free) mime data
  · refine .inl ⟨hcur, ?_⟩
    simp only [afterPublish, hsame]
    rw [settle_of_same n w u rfl rfl]
  · refine .inr ⟨hcur, ?_⟩
    simp only [afterPublish, htaken]
    rfl

/-- A frame that is delivered changes nothing but its line, or the node takes up what it carries. -/
theorem afterDelivery_cases (n : Network N) {w : Wiring N} {u v : N} {id : SessionId}
    (hid : w.session v u = some id) (mime : String) (data : Bytes) :
    ((n.afterDelivery w u v id mime data).network = n.onLine u v Line.read ∧
        (n.afterDelivery w u v id mime data).effects = []) ∨
      ∃ origin, (n.afterDelivery w u v id mime data).network =
          (n.onLine u v Line.read).spread w v mime data origin (some u) ∧
        (n.afterDelivery w u v id mime data).effects =
          ((n.group v).accept (fun _ => .free) mime data origin (some id)).effects := by
  obtain ⟨hsame, hnone, -⟩ | ⟨e, -, -, -, -, htaken⟩ :=
    Group.acceptUpdate_cases (n.group v) (fun _ => .free) id mime data
  · exact .inl ⟨settle_of_same _ w v hsame hnone, hnone⟩
  · refine .inr ⟨.remote e.device, ?_, ?_⟩
    · simp only [afterDelivery, htaken, spread, Option.bind_some, hid]
      rfl
    · simp only [afterDelivery, htaken]
      rfl

/-- A content that a node takes up waits for every node that it is sent on to. -/
theorem Sound.line_spread_of_onward (h : Sound w c n) {u b : N} {from? : Option N}
    (hb : w.Onward u from? b) (mime : String) (data : Bytes) (origin : Origin) :
    (n.spread w u mime data origin from?).line u b =
      (n.line u b).queue [n.nextFrame u mime data origin] := by
  obtain ⟨id, hid⟩ := Wiring.adj_iff.1 hb.1
  rw [spread, line_settle, if_pos rfl, hid, framesFor, Group.frames_accept (h.inStep u),
    if_pos ((h.mem_recipients hid from?).2 hb)]
  rfl

theorem Sound.line_spread_of_not (h : Sound w c n) {u a b : N} {from? : Option N}
    (hb : ¬ (a = u ∧ w.Onward u from? b)) (mime : String) (data : Bytes) (origin : Origin) :
    (n.spread w u mime data origin from?).line a b = n.line a b := by
  rw [spread, line_settle]
  split
  · rename_i ha
    subst ha
    cases hid : w.session a b with
    | none => simp [framesFor, Line.queue]
    | some id =>
      have hnot : ¬ id ∈ (n.group a).recipients (fun _ => .free) (from?.bind (w.session a)) :=
        fun hmem => hb ⟨rfl, (h.mem_recipients hid from?).1 hmem⟩
      rw [framesFor, Group.frames_accept (h.inStep a), if_neg hnot]
      simp [Line.queue]
  · rfl

/-! ## Every step keeps a network sound -/

theorem memberSession?_spread (n : Network N) (w : Wiring N) (u : N) (mime : String)
    (data : Bytes) (origin : Origin) (from? : Option N) (a : N) (k : Device.Identity) :
    ((n.spread w u mime data origin from?).group a).memberSession? k =
      (n.group a).memberSession? k := by
  by_cases ha : a = u
  · subst ha
    rw [group_spread_self]
    rfl
  · rw [group_spread_of_ne n w ha]

theorem Sound.frames_spread (h : Sound w c n) {p : Outgoing → Prop} {q : Bytes → Prop}
    (hframes : Frames p q n.line) (u : N) {mime : String} {data : Bytes} {origin : Origin}
    (hnext : p (n.nextFrame u mime data origin)) (from? : Option N) :
    Frames p q (n.spread w u mime data origin from?).line where
  outboxes a b x hx := by
    by_cases hb : a = u ∧ w.Onward u from? b
    · obtain ⟨rfl, hon⟩ := hb
      rw [h.line_spread_of_onward hon, Line.queue, List.mem_append, List.mem_singleton] at hx
      obtain hx | rfl := hx
      · exact hframes.outboxes a b x hx
      · exact hnext
    · rw [h.line_spread_of_not hb] at hx
      exact hframes.outboxes a b x hx
  wires a b f hf := by
    by_cases hb : a = u ∧ w.Onward u from? b
    · obtain ⟨rfl, hon⟩ := hb
      rw [h.line_spread_of_onward hon] at hf
      exact hframes.wires a b f hf
    · rw [h.line_spread_of_not hb] at hf
      exact hframes.wires a b f hf

theorem Sound.proper_spread (h : Sound w c n) (u : N) {mime : String} {data : Bytes}
    (hfits : c.Fits (.syncRequest mime data)) (origin : Origin) (from? : Option N) :
    Proper w c (n.spread w u mime data origin from?).line where
  toFrames := h.frames_spread h.proper.toFrames u ⟨⟨mime, data, hfits, rfl⟩, rfl⟩ from?
  apart a b hnone := by
    rw [h.line_spread_of_not]
    · exact h.proper.apart a b hnone
    · rintro ⟨rfl, hon⟩
      obtain ⟨id, hid⟩ := Wiring.adj_iff.1 hon.1
      rw [hnone] at hid
      cases hid

theorem Sound.spread (h : Sound w c n) (u : N) {mime : String} {data : Bytes}
    (hfits : c.Fits (.syncRequest mime data)) (origin : Origin) (from? : Option N) :
    Sound w c (n.spread w u mime data origin from?) where
  joined a id := by
    simp only [memberSession?_spread]
    exact h.joined a id
  inStep a := by
    by_cases ha : a = u
    · subst ha
      rw [group_spread_self]
      exact (h.inStep a).accept _ mime data origin _
    · rw [group_spread_of_ne n w ha]
      exact h.inStep a
  honest a := by
    by_cases ha : a = u
    · subst ha
      rw [group_spread_self]
      exact (h.honest a).record mime data origin
    · rw [group_spread_of_ne n w ha]
      exact h.honest a
  proper := h.proper_spread u hfits origin from?
  tracked a b id e seq hid he hfl := by
    by_cases ha : a = u
    · subst ha
      rw [group_spread_self, Group.get?_sessions_accept] at he
      by_cases hon : w.Onward a from? b
      · -- The number under way is the one of the new frame, which waits.
        rw [if_pos ((h.mem_recipients hid from?).2 hon)] at he
        obtain ⟨e', -, rfl⟩ := Option.map_eq_some_iff.1 he
        cases hfl
        rw [h.line_spread_of_onward hon]
        simp [Line.unreported, Line.queue, nextFrame, Group.updateFrame, History.next]
      · rw [if_neg fun hmem => hon ((h.mem_recipients hid from?).1 hmem)] at he
        rw [h.line_spread_of_not fun hb => hon hb.2]
        exact h.tracked a b id e seq hid he hfl
    · rw [group_spread_of_ne n w ha] at he
      rw [h.line_spread_of_not fun hb => ha hb.1]
      exact h.tracked a b id e seq hid he hfl

/-- A change of one line on which every frame has the property of its place. -/
theorem Frames.onLine {p : Outgoing → Prop} {q : Bytes → Prop} (h : Frames p q n.line) (u v : N)
    {f : Line → Line} (houtbox : ∀ x ∈ (f (n.line u v)).outbox, x ∈ (n.line u v).outbox)
    (hwire : ∀ b ∈ (f (n.line u v)).wire, q b) : Frames p q (n.onLine u v f).line where
  outboxes a b x hx := by
    rw [line_onLine] at hx
    split at hx
    · rename_i hab
      obtain ⟨rfl, rfl⟩ := hab
      exact h.outboxes a b x (houtbox x hx)
    · exact h.outboxes a b x hx
  wires a b g hg := by
    rw [line_onLine] at hg
    split at hg
    · rename_i hab
      obtain ⟨rfl, rfl⟩ := hab
      exact hwire g hg
    · exact h.wires a b g hg

theorem Frames.write {p : Outgoing → Prop} {q : Bytes → Prop} (h : Frames p q n.line) {u v : N}
    {x : Outgoing} (hx : (n.line u v).outbox.head? = some x) (hpq : p x → q x.frame) :
    Frames p q (n.onLine u v (·.written x)).line := by
  refine h.onLine u v (fun y hy => List.mem_of_mem_tail hy) fun b hb => ?_
  rw [Line.written, List.mem_append, List.mem_singleton] at hb
  obtain hb | rfl := hb
  · exact h.wires u v b hb
  · exact hpq (h.outboxes u v x (List.mem_of_mem_head? hx))

theorem Frames.read {p : Outgoing → Prop} {q : Bytes → Prop} (h : Frames p q n.line) (u v : N) :
    Frames p q (n.onLine u v Line.read).line :=
  h.onLine u v (fun _ hx => hx) fun b hb => h.wires u v b (List.mem_of_mem_tail hb)

theorem Frames.report {p : Outgoing → Prop} {q : Bytes → Prop} (h : Frames p q n.line) (u v : N) :
    Frames p q (n.onLine u v Line.reported).line :=
  h.onLine u v (fun _ hx => hx) fun b hb => h.wires u v b hb

/-- A line on which nothing was stays empty. -/
theorem Proper.onLine (h : Proper w c n.line) {u v : N} {f : Line → Line}
    (hframes : Frames (fun x => Carries c x.frame ∧ x.seq.isSome) (Carries c)
      (n.onLine u v f).line)
    (hempty : (n.line u v).Empty → (f (n.line u v)).Empty) : Proper w c (n.onLine u v f).line where
  toFrames := hframes
  apart a b hnone := by
    rw [line_onLine]
    split
    · rename_i hab
      obtain ⟨rfl, rfl⟩ := hab
      exact hempty (h.apart a b hnone)
    · exact h.apart a b hnone

/-- A change of one line keeps a network sound if every update on it stays unreported. -/
theorem Sound.onLine (h : Sound w c n) (u v : N) {f : Line → Line}
    (hproper : Proper w c (n.onLine u v f).line)
    (htracked : ∀ seq ∈ (n.line u v).unreported, seq ∈ (f (n.line u v)).unreported) :
    Sound w c (n.onLine u v f) where
  joined := h.joined
  inStep := h.inStep
  honest := h.honest
  proper := hproper
  tracked a b id e seq hid he hfl := by
    have hold := h.tracked a b id e seq hid he hfl
    rw [line_onLine]
    split
    · rename_i hab
      obtain ⟨rfl, rfl⟩ := hab
      exact htracked seq hold
    · exact hold

theorem Sound.write (h : Sound w c n) {u v : N} {x : Outgoing}
    (hx : (n.line u v).outbox.head? = some x) : Sound w c (n.onLine u v (·.written x)) := by
  obtain ⟨xs, hxs⟩ := List.head?_eq_some_iff.1 hx
  have hframes := h.proper.toFrames.write hx And.left
  refine h.onLine u v (h.proper.onLine hframes fun hempty => ?_) fun seq hseq => ?_
  · rw [hempty] at hx
    cases hx
  · simp only [Line.unreported, Line.written, hxs, List.filterMap_cons, List.tail_cons,
      List.mem_append, Option.mem_toList] at hseq ⊢
    cases hs : x.seq with
    | none =>
      rw [hs] at hseq
      exact hseq.imp_right .inl
    | some i =>
      simp only [hs, List.mem_cons] at hseq
      obtain (rfl | hwaits) | hreport := hseq
      · exact .inr (.inr rfl)
      · exact .inl hwaits
      · exact .inr (.inl hreport)

theorem Sound.read (h : Sound w c n) (u v : N) : Sound w c (n.onLine u v Line.read) := by
  have hframes := h.proper.toFrames.read u v
  refine h.onLine u v (h.proper.onLine hframes fun hempty => ?_) fun _ hseq => hseq
  rw [hempty]
  rfl

/-- The group stops taking an update for under way only when it is told that it is written. -/
theorem Sound.report (h : Sound w c n) {u v : N} {id : SessionId} {seq : Nat}
    (hid : w.session u v = some id) (hseq : (n.line u v).reports.head? = some seq) :
    Sound w c (n.afterReport u v id seq).network := by
  obtain ⟨rest, hrest⟩ := List.head?_eq_some_iff.1 hseq
  have hgroup : ∀ a, (n.afterReport u v id seq).network.group a =
      if a = u then (n.group u).flushed id seq else n.group a :=
    fun a => Function.update_apply n.group u ((n.group u).flushed id seq) a
  have hline : ∀ a b, (n.afterReport u v id seq).network.line a b =
      if a = u ∧ b = v then (n.line a b).reported else n.line a b :=
    line_onLine n u v Line.reported
  refine ⟨fun a i => ?_, fun a => ?_, fun a => ?_, ?_, fun a b i e s hi he hfl => ?_⟩
  · have hmembers : ∀ k, ((n.afterReport u v id seq).network.group a).memberSession? k =
        (n.group a).memberSession? k := by
      intro k
      rw [hgroup]
      split
      · rename_i ha
        rw [ha]
        rfl
      · rfl
    simp only [hmembers]
    exact h.joined a i
  · rw [hgroup]
    split
    · exact (h.inStep u).flushed id seq
    · exact h.inStep a
  · rw [hgroup]
    split
    · exact h.honest u
    · exact h.honest a
  · refine h.proper.onLine (h.proper.toFrames.report u v) fun hempty => ?_
    rw [hempty]
    rfl
  · rw [hgroup] at he
    rw [hline]
    by_cases ha : a = u
    · subst ha
      rw [if_pos rfl, Group.get?_sessions_flushed] at he
      by_cases hb : b = v
      · subst hb
        rw [hid] at hi
        cases hi
        rw [if_pos rfl] at he
        obtain ⟨e', he', rfl⟩ := Option.map_eq_some_iff.1 he
        -- Only the report of its own number clears the note, so this one is still to come.
        split at hfl
        · cases hfl
        · rename_i hne
          have hold := h.tracked a b id e' s hid he' hfl
          rw [hfl] at hne
          simp only [Line.unreported, hrest, List.mem_append, List.mem_cons] at hold
          simp only [Line.unreported, Line.reported, hrest, and_self, if_true, List.tail_cons,
            List.mem_append]
          obtain hwaits | rfl | hreport := hold
          · exact .inl hwaits
          · exact absurd rfl hne
          · exact .inr hreport
      · rw [if_neg fun heq : id = i => hb (w.distinct a b v i hi (heq ▸ hid))] at he
        rw [if_neg fun hab => hb hab.2]
        exact h.tracked a b i e s hi he hfl
    · rw [if_neg ha] at he
      rw [if_neg fun hab => ha hab.1]
      exact h.tracked a b i e s hi he hfl

/-- A frame of a sound network carries the content that it is decoded to. -/
theorem Carries.fits {frame : Bytes} (h : Carries c frame) {mime : String} {data : Bytes}
    (hdecode : c.decode frame = .ok (.syncRequest mime data)) :
    c.Fits (.syncRequest mime data) := by
  obtain ⟨mime', data', hfits, rfl⟩ := h
  rw [Codec.decode_encode hfits] at hdecode
  cases hdecode
  exact hfits

theorem sound_step (h : Sound w c n) {t : Turn N} (hs : Step w c n t) : Sound w c t.network := by
  cases hs with
  | publish u hok =>
    rename_i mime data
    obtain ⟨-, hsame⟩ | ⟨-, htaken⟩ := afterPublish_cases n w u mime data
    · rw [hsame]
      exact h
    · rw [htaken]
      exact h.spread u (Codec.checkContent_eq_ok_iff.1 hok) .local none
  | write hx => exact h.write hx
  | deliver hid hframe hdecode =>
    rename_i u v id frame mime data
    obtain ⟨hsame, -⟩ | ⟨origin, htaken, -⟩ := afterDelivery_cases n hid mime data
    · rw [hsame]
      exact h.read u v
    · rw [htaken]
      have hcarries := h.proper.wires u v frame (List.mem_of_mem_head? hframe)
      exact (h.read u v).spread v (hcarries.fits hdecode) origin (some u)
  | report hid hseq => exact h.report hid hseq

theorem sound_run (h : Sound w c n) {ts : List (Turn N)} {last : Network N}
    (hrun : Run w c n ts last) : Sound w c last := by
  induction hrun with
  | start => exact h
  | turn _ hs ih => exact sound_step ih hs

/-! ## Progress -/

omit [DecidableEq N] in
theorem Sound.quiet (h : Sound w c n) (hlines : ∀ u v, (n.line u v).Empty) : n.Quiet w where
  lines := hlines
  settled u v id e hid he := by
    cases hfl : e.inFlight with
    | none => rfl
    | some seq =>
      have hold := h.tracked u v id e seq hid he hfl
      rw [hlines u v] at hold
      simp [Line.unreported] at hold

/-- Unless the network is quiet, something can happen without its users. -/
theorem Sound.progress (h : Sound w c n) (hbusy : ¬ n.Quiet w) :
    ∃ t, Step w c n t ∧ t.move.isPublish = false := by
  have hsome : ∃ u v, ¬ (n.line u v).Empty := by
    by_contra hnone
    push Not at hnone
    exact hbusy (h.quiet hnone)
  obtain ⟨u, v, hline⟩ := hsome
  obtain ⟨id, hid⟩ : ∃ id, w.session u v = some id :=
    Option.ne_none_iff_exists'.1 fun hnone => hline (h.proper.apart u v hnone)
  obtain ⟨id', hid'⟩ : ∃ id, w.session v u = some id :=
    Wiring.adj_iff.1 (w.graph.symm.symm u v (Wiring.adj_iff.2 ⟨id, hid⟩))
  cases hout : (n.line u v).outbox with
  | cons x xs => exact ⟨_, .write (by rw [hout]; rfl), rfl⟩
  | nil =>
    cases hwire : (n.line u v).wire with
    | cons frame rest =>
      obtain ⟨mime, data, hfits, rfl⟩ :=
        h.proper.wires u v frame (hwire ▸ List.mem_cons_self)
      exact ⟨_, .deliver hid' (by rw [hwire]; rfl) (Codec.decode_encode hfits), rfl⟩
    | nil =>
      cases hreports : (n.line u v).reports with
      | cons seq rest => exact ⟨_, .report hid (by rw [hreports]; rfl), rfl⟩
      | nil =>
        exact absurd (Line.empty_of_nil hout hwire hreports) hline

end Network

end SharedClipboard
