import SharedClipboard.Proofs.Network.Sound

/-!
# Networks whose outboxes may be full

The steps of a network when an outbox may be full or closed at any moment: a content goes to those
neighbours whose outboxes have room, and to the others it does not go. A `Step` is the case in which
all have room (`Step.crowded`).

`Change` says what one step can do: nothing, or one frame leaves its place on a line, or one node
takes up a content that is new to it. In the last case every line gets the frame at most once, and
the line back to where the content came from does not get it (`Orderly.line_crowdedSpread`).
-/

namespace SharedClipboard

variable {N : Type}

/-- The number of frames that are not read yet. -/
def Line.load (l : Line) : Nat := l.outbox.length + l.wire.length

theorem Line.load_written {l : Line} {x : Outgoing} (hx : l.outbox.head? = some x) :
    (l.written x).load = l.load := by
  obtain ⟨xs, hxs⟩ := List.head?_eq_some_iff.1 hx
  simp only [load, written, hxs, List.tail_cons, List.length_cons, List.length_append,
    List.length_nil]
  omega

theorem Line.load_read {l : Line} {frame : Bytes} (h : l.wire.head? = some frame) :
    l.read.load + 1 = l.load := by
  obtain ⟨rest, hrest⟩ := List.head?_eq_some_iff.1 h
  simp only [load, read, hrest, List.tail_cons, List.length_cons]
  omega

theorem Line.load_queue (l : Line) (x : Outgoing) : (l.queue [x]).load = l.load + 1 := by
  simp only [load, queue, List.length_append, List.length_singleton]
  omega

namespace Network

variable [DecidableEq N] {w : Wiring N} {c : Codec} {n : Network N}

/-! ## Steps -/

/-- A user publishes a content, with so much room in the outboxes of the node. -/
def crowdedPublish (n : Network N) (w : Wiring N) (room : SessionId → Room) (u : N)
    (mime : String) (data : Bytes) : Turn N :=
  let o := (n.group u).publishLocal room mime data
  { move := .publish u mime data, network := n.settle w u o, effects := o.effects
    published := o.answer }

/-- A frame is read and taken up, with so much room in the outboxes of the node. -/
def crowdedDelivery (n : Network N) (w : Wiring N) (room : SessionId → Room) (u v : N)
    (id : SessionId) (mime : String) (data : Bytes) : Turn N :=
  let o := (n.group v).acceptUpdate room id mime data
  { move := .deliver u v, network := (n.onLine u v Line.read).settle w v o, effects := o.effects
    outcome := some o.answer }

/-- What can happen in a network, whatever room there is in the outboxes. -/
inductive CrowdedStep (w : Wiring N) (c : Codec) (n : Network N) : Turn N → Prop where
  | publish (room : SessionId → Room) (u : N) {mime : String} {data : Bytes} :
      c.checkContent mime data = .ok () →
      CrowdedStep w c n (n.crowdedPublish w room u mime data)
  | write {u v : N} {x : Outgoing} : (n.line u v).outbox.head? = some x →
      CrowdedStep w c n (n.afterWrite u v x)
  | deliver (room : SessionId → Room) {u v : N} {id : SessionId} {frame : Bytes} {mime : String}
      {data : Bytes} : w.session v u = some id → (n.line u v).wire.head? = some frame →
      c.decode frame = .ok (.syncRequest mime data) →
      CrowdedStep w c n (n.crowdedDelivery w room u v id mime data)
  | report {u v : N} {id : SessionId} {seq : Nat} : w.session u v = some id →
      (n.line u v).reports.head? = some seq → CrowdedStep w c n (n.afterReport u v id seq)

/-- What happens step after step, from the first state to the last. -/
inductive CrowdedRun (w : Wiring N) (c : Codec) (first : Network N) :
    List (Turn N) → Network N → Prop where
  | start : CrowdedRun w c first [] first
  | turn {ts : List (Turn N)} {n : Network N} {t : Turn N} : CrowdedRun w c first ts n →
      CrowdedStep w c n t → CrowdedRun w c first (ts ++ [t]) t.network

theorem Step.crowded {t : Turn N} (hs : Step w c n t) : CrowdedStep w c n t := by
  cases hs with
  | publish u hok => exact .publish (fun _ => .free) u hok
  | write hx => exact .write hx
  | deliver hid hframe hdecode => exact .deliver (fun _ => .free) hid hframe hdecode
  | report hid hseq => exact .report hid hseq

theorem Run.crowded {first last : Network N} {ts : List (Turn N)} (hrun : Run w c first ts last) :
    CrowdedRun w c first ts last := by
  induction hrun with
  | start => exact .start
  | turn _ hs ih => exact ih.turn hs.crowded

/-! ## What a step can do -/

/-- A node takes up a content and sends it on as far as there is room. -/
def crowdedSpread (n : Network N) (w : Wiring N) (room : SessionId → Room) (u : N) (mime : String)
    (data : Bytes) (origin : Origin) (from? : Option N) : Network N :=
  n.settle w u ((n.group u).accept room mime data origin (from?.bind (w.session u)))

/-- What a step makes of a network, and whether a content is published in it. -/
inductive Change (w : Wiring N) (c : Codec) (n : Network N) : Network N → Bool → Prop where
  | nothing : Change w c n n false
  | published (room : SessionId → Room) (u : N) {mime : String} {data : Bytes} :
      c.Fits (.syncRequest mime data) →
      (n.group u).history.isCurrent (.of mime data) = false →
      Change w c n (n.crowdedSpread w room u mime data .local none) true
  | written {u v : N} {x : Outgoing} : (n.line u v).outbox.head? = some x →
      Change w c n (n.onLine u v (·.written x)) false
  /-- A frame is read and what it carries is not taken up. -/
  | dropped {u v : N} {frame : Bytes} : (n.line u v).wire.head? = some frame →
      Change w c n (n.onLine u v Line.read) false
  | taken (room : SessionId → Room) {u v : N} {id : SessionId} {frame : Bytes} {mime : String}
      {data : Bytes} (origin : Origin) : w.session v u = some id →
      (n.line u v).wire.head? = some frame → c.decode frame = .ok (.syncRequest mime data) →
      (n.group v).history.isCurrent (.of mime data) = false →
      Change w c n ((n.onLine u v Line.read).crowdedSpread w room v mime data origin (some u)) false
  | reported (u v : N) (id : SessionId) (seq : Nat) :
      Change w c n (n.afterReport u v id seq).network false

theorem CrowdedStep.change {t : Turn N} (hs : CrowdedStep w c n t) :
    Change w c n t.network t.published.isSome := by
  cases hs with
  | publish room u hok =>
    rename_i mime data
    obtain ⟨-, hsame⟩ | ⟨hnew, htaken⟩ := Group.publishLocal_cases (n.group u) room mime data
    · simp only [crowdedPublish, hsame]
      rw [settle_of_same n w u rfl rfl]
      exact .nothing
    · simp only [crowdedPublish, htaken]
      exact .published room u (Codec.checkContent_eq_ok_iff.1 hok) hnew
  | write hx => exact .written hx
  | deliver room hid hframe hdecode =>
    rename_i u v id frame mime data
    obtain ⟨hsame, hnone, -⟩ | ⟨e, -, -, -, hnew, htaken⟩ :=
      Group.acceptUpdate_cases (n.group v) room id mime data
    · simp only [crowdedDelivery]
      rw [settle_of_same (n.onLine u v Line.read) w v hsame hnone]
      exact .dropped hframe
    · have htake := Change.taken (w := w) room (.remote e.device) hid hframe hdecode hnew
      simp only [crowdedDelivery, htaken]
      rw [crowdedSpread, Option.bind_some, hid] at htake
      exact htake
  | report _ _ => exact .reported _ _ _ _

/-! ## Groups and lines after a content is taken up -/

theorem group_crowdedSpread (n : Network N) (w : Wiring N) (room : SessionId → Room) (u : N)
    (mime : String) (data : Bytes) (origin : Origin) (from? : Option N) (a : N) :
    (n.crowdedSpread w room u mime data origin from?).group a =
      if a = u then
        ((n.group u).accept room mime data origin (from?.bind (w.session u))).group
      else n.group a :=
  Function.update_apply n.group u _ a

theorem history_crowdedSpread (n : Network N) (w : Wiring N) (room : SessionId → Room) (u : N)
    (mime : String) (data : Bytes) (origin : Origin) (from? : Option N) (a : N) :
    ((n.crowdedSpread w room u mime data origin from?).group a).history =
      if a = u then ((n.group u).history.record mime data origin).2
      else (n.group a).history := by
  rw [group_crowdedSpread]
  split <;> rfl

theorem history_afterReport (n : Network N) (u v : N) (id : SessionId) (seq : Nat) (a : N) :
    ((n.afterReport u v id seq).network.group a).history = (n.group a).history := by
  show (Function.update n.group u ((n.group u).flushed id seq) a).history = _
  rw [Function.update_apply]
  split
  · rename_i ha
    rw [ha]
    rfl
  · rfl

/-- Members and sessions are in step, and the digests in the histories are those of the contents. -/
structure Orderly (n : Network N) : Prop where
  inStep : ∀ u, (n.group u).InStep
  honest : ∀ u, (n.group u).history.Honest

omit [DecidableEq N] in
theorem orderly_of_reachable (h : ∀ u, ∃ limit, Group.Reachable limit (n.group u)) :
    n.Orderly where
  inStep u := (h u).elim fun _ hu => hu.inStep
  honest u := (h u).elim fun _ hu => hu.honest

/-- A line stays as it is, or it is one that the content goes on by, and gets its frame. -/
theorem Orderly.line_crowdedSpread (h : n.Orderly) (w : Wiring N) (room : SessionId → Room) (u : N)
    (mime : String) (data : Bytes) (origin : Origin) (from? : Option N) (a b : N) :
    (n.crowdedSpread w room u mime data origin from?).line a b = n.line a b ∨
      a = u ∧ some b ≠ from? ∧
        (n.crowdedSpread w room u mime data origin from?).line a b =
          (n.line a b).queue [n.nextFrame u mime data origin] := by
  rw [crowdedSpread, line_settle]
  by_cases ha : a = u
  · subst ha
    rw [if_pos rfl]
    cases hid : w.session a b with
    | none => exact .inl (by simp [framesFor, Line.queue])
    | some id =>
      -- Nothing goes to a full outbox, or to the neighbour that the content came from.
      rw [framesFor, Group.frames_accept (h.inStep a)]
      by_cases hmem : id ∈ (n.group a).recipients room (from?.bind (w.session a))
      · refine .inr ⟨rfl, fun hback => ?_, by rw [if_pos hmem]; rfl⟩
        rw [← hback, Option.bind_some, hid] at hmem
        exact ((h.inStep a).mem_recipients.1 hmem).2.1 rfl
      · rw [if_neg hmem]
        exact .inl (by simp [Line.queue])
  · rw [if_neg ha]
    exact .inl rfl

theorem Orderly.onLine (h : n.Orderly) (u v : N) (f : Line → Line) : (n.onLine u v f).Orderly :=
  ⟨h.inStep, h.honest⟩

theorem Orderly.crowdedSpread (h : n.Orderly) (w : Wiring N) (room : SessionId → Room) (u : N)
    (mime : String) (data : Bytes) (origin : Origin) (from? : Option N) :
    (n.crowdedSpread w room u mime data origin from?).Orderly where
  inStep a := by
    rw [group_crowdedSpread]
    split
    · exact (h.inStep u).accept room mime data origin _
    · exact h.inStep a
  honest a := by
    rw [history_crowdedSpread]
    split
    · exact (h.honest u).record mime data origin
    · exact h.honest a

theorem Orderly.afterReport (h : n.Orderly) (u v : N) (id : SessionId) (seq : Nat) :
    (n.afterReport u v id seq).network.Orderly where
  inStep a := by
    show (Function.update n.group u ((n.group u).flushed id seq) a).InStep
    rw [Function.update_apply]
    split
    · exact (h.inStep u).flushed id seq
    · exact h.inStep a
  honest a := by
    rw [history_afterReport]
    exact h.honest a

/-- Frames keep a property that the new frame has. -/
theorem Orderly.frames_crowdedSpread (h : n.Orderly) {p : Outgoing → Prop} {q : Bytes → Prop}
    (hframes : Frames p q n.line) (w : Wiring N) (room : SessionId → Room) (u : N) {mime : String}
    {data : Bytes} {origin : Origin} (hnext : p (n.nextFrame u mime data origin))
    (from? : Option N) :
    Frames p q (n.crowdedSpread w room u mime data origin from?).line where
  outboxes a b x hx := by
    obtain hsame | ⟨rfl, -, hline⟩ := h.line_crowdedSpread w room u mime data origin from? a b
    · rw [hsame] at hx
      exact hframes.outboxes a b x hx
    · rw [hline, Line.queue, List.mem_append, List.mem_singleton] at hx
      obtain hx | rfl := hx
      · exact hframes.outboxes a b x hx
      · exact hnext
  wires a b f hf := by
    obtain hsame | ⟨rfl, -, hline⟩ := h.line_crowdedSpread w room u mime data origin from? a b
    · rw [hsame] at hf
      exact hframes.wires a b f hf
    · rw [hline] at hf
      exact hframes.wires a b f hf

theorem Change.orderly {n' : Network N} {p : Bool} (hc : Change w c n n' p) (h : n.Orderly) :
    n'.Orderly := by
  cases hc with
  | nothing => exact h
  | published room u _ _ => exact h.crowdedSpread w room u _ _ _ _
  | written _ => exact h.onLine _ _ _
  | dropped _ => exact h.onLine _ _ _
  | taken room origin _ _ _ _ => exact (h.onLine _ _ Line.read).crowdedSpread w room _ _ _ _ _
  | reported u v id seq => exact h.afterReport u v id seq

theorem orderly_run {first last : Network N} {ts : List (Turn N)} (h : first.Orderly)
    (hrun : CrowdedRun w c first ts last) : last.Orderly := by
  induction hrun with
  | start => exact h
  | turn _ hs ih => exact hs.change.orderly ih

end Network

end SharedClipboard
