import SharedClipboard.Proofs.Node.Station
import SharedClipboard.Proofs.Session.Question
import SharedClipboard.Simulation.NodeRun

/-!
# A station that mirrors a driven node

A `Simulation.NodeRun` drives a node under a made-up clock: everything that can happen at a moment
happens, in a fixed order, and the peers do what they are told to. A `Station` leaves the order open
and the peers free. `Mirrors` says that a station is where a run is: the node and what is around it
are the same, and the sessions stand as far. A connection that waits at the listener is no line of
the station yet, and what the run goes through one after the other (`AtHand`) is what the station
still has to do.

`Leads` is the step of the simulation: whatever station mirrors the one run, things can happen to
it, at that moment, after which it mirrors the other. Here is what the node does with a command, and
with a connection that has opened.
-/

namespace SharedClipboard

namespace Station

theorem Run.trans {first s s' : Station} {hs hs' : List Happening} (h : Run first hs s)
    (h' : Run s hs' s') : Run first (hs ++ hs') s' := by
  induction h' with
  | start => rwa [List.append_nil]
  | step _ hstep ih =>
    rw [← List.append_assoc]
    exact ih.step hstep

/-- Things happened to the station at one moment, and the node was not told to stop. -/
def Meanwhile (s s' : Station) : Prop :=
  ∃ hs, Run s hs s' ∧ s'.now = s.now ∧ s'.stopped = s.stopped

theorem Meanwhile.refl (s : Station) : s.Meanwhile s := ⟨[], .start, rfl, rfl⟩

theorem Meanwhile.trans {s s' s'' : Station} (h : s.Meanwhile s') (h' : s'.Meanwhile s'') :
    s.Meanwhile s'' := by
  obtain ⟨hs, hrun, hnow, hstopped⟩ := h
  obtain ⟨hs', hrun', hnow', hstopped'⟩ := h'
  exact ⟨hs ++ hs', hrun.trans hrun', hnow'.trans hnow, hstopped'.trans hstopped⟩

theorem Step.meanwhile {s s' : Station} {h : Happening} (hs : Step s h s') (hnow : s'.now = s.now)
    (hstopped : s'.stopped = s.stopped) : s.Meanwhile s' := ⟨[h], .step .start hs, hnow, hstopped⟩

end Station

namespace Simulation

/-- The connection that waits at the listener, if it is one. -/
def Waiting.connection? : Waiting → Option SessionId
  | .connection id => some id
  | .failure => none

namespace NodeRun

/-! ## What a station shows of a run -/

/-- What a station has of a connection: nothing until the node is told of it, and from then on what
the run has. -/
inductive Pictures (w? : Option Wire) : Option Link → Option Station.Line → Prop where
  | untold {k? : Option Link} : (∀ k, k? = some k → k.task = none) → Pictures w? k? none
  | told {k : Link} {l : Station.Line} : w? = some l.wire → l.connection = k.connection →
      l.task = k.task → Pictures w? (some k) (some l)

/-- The lines of a station are the links of a run of which the node was told. -/
structure Lines (ws : List Wire) (ks : List Link) (ls : Table SessionId Station.Line) : Prop where
  length : ws.length = ks.length
  pictures : ∀ id, Pictures ws[id]? ks[id]? (ls.get? id)

/-- What waits at the listener are connections of which the node was not told, each of them once. -/
structure Waits (n : Nat) (ws : List Waiting) (ls : Table SessionId Station.Line) : Prop where
  nodup : (ws.filterMap Waiting.connection?).Nodup
  untold : ∀ id, .connection id ∈ ws → id < n ∧ ls.get? id = none

/-- The questions on the list are the open ones of sessions that wait for an answer. -/
structure Questions (ids : List SessionId) (ks : List Link) : Prop where
  attentive : ∀ (id : SessionId) (k : Link) (t : SessionTask), ks[id]? = some k →
    k.task = some t → t.Attentive
  nodup : ids.Nodup
  isOpen : ∀ id ∈ ids, ∃ (k : Link) (t : SessionTask), ks[id]? = some k ∧ k.task = some t ∧
    t.IsOpen

/-- What a run goes through one after the other, while it does. -/
structure AtHand where
  commands : List Node.Command := []
  /-- What the sessions reported, newest first. -/
  reports : List (Time × SessionId × Report) := []
  waiting : List Waiting := []
  dials : List Dial := []

/-- The commands that reports are, oldest first. -/
def commandsOf (reports : List (Time × SessionId × Report)) : List Node.Command :=
  reports.reverse.map fun x => .report x.2.1 x.2.2

/-- The station is where the run is. -/
structure Mirrors (r : NodeRun) (a : AtHand) (s : Station) : Prop where
  config : s.config = r.config
  node : s.node = r.node
  registry : s.registry = r.surroundings.registry
  now : s.now = r.now
  stopped : s.stopped = r.stopped
  reports : r.surroundings.reports = a.reports
  queue : r.stopped = false → s.queue = a.commands ++ commandsOf a.reports
  dials : r.stopped = false → s.dials.Perm ((a.dials ++ r.dials).map (·.device))
  lines : Lines r.wires r.links s.lines
  waits : Waits r.links.length (a.waiting ++ r.backlog) s.lines
  questions : Questions r.surroundings.openQuestions r.links

/-! ## One connection changes -/

variable {ws : List Wire} {ks : List Link} {ls ls' : Table SessionId Station.Line} {id : SessionId}
  {f : Link → Link} {g : Station.Line → Station.Line}

theorem get?_put_of_some {l : Station.Line} (hl : ls.get? id = some l) (j : SessionId) :
    (ls.put id (g l)).get? j = if id = j then (ls.get? j).map g else ls.get? j := by
  rw [Table.get?_put]
  split
  · rename_i hj
    rw [← hj, hl, Option.map_some]
  · rfl

theorem Lines.wire (h : Lines ws ks ls) {l : Station.Line} (hl : ls.get? id = some l) :
    ∃ k, ks[id]? = some k ∧ ws[id]? = some l.wire ∧ l.connection = k.connection ∧
      l.task = k.task := by
  have hid := h.pictures id
  rw [hl] at hid
  generalize hk : ks[id]? = k? at hid
  cases hid with
  | told hwire hconnection htask => exact ⟨_, rfl, hwire, hconnection, htask⟩

/-- Of a session that runs the node was told. -/
theorem Lines.line (h : Lines ws ks ls) {k : Link} {t : SessionTask} (hk : ks[id]? = some k)
    (ht : k.task = some t) :
    ∃ l, ls.get? id = some l ∧ l.connection = k.connection ∧ l.task = some t := by
  have hid := h.pictures id
  rw [hk] at hid
  generalize hl : ls.get? id = l? at hid
  cases hid with
  | untold hnone =>
    rw [hnone k rfl] at ht
    cases ht
  | told _ hconnection htask => exact ⟨_, rfl, hconnection, htask.trans ht⟩

theorem Lines.update (h : Lines ws ks ls) (id : SessionId)
    (hls : ∀ j, ls'.get? j = if id = j then (ls.get? j).map g else ls.get? j)
    (htold : ∀ k l, ks[id]? = some k → ls.get? id = some l → l.connection = k.connection →
      l.task = k.task → (g l).wire = l.wire ∧ (g l).connection = (f k).connection ∧
        (g l).task = (f k).task)
    (huntold : ls.get? id = none → ∀ k, k.task = none → (f k).task = none) :
    Lines ws (ks.modify id f) ls' where
  length := by rw [List.length_modify, h.length]
  pictures j := by
    rw [List.getElem?_modify, hls]
    by_cases hj : id = j
    · subst hj
      simp only [if_true]
      have hid := h.pictures id
      -- The picture of this line is made anew from the old one; the others stay.
      generalize hk : ks[id]? = k? at hid
      generalize hl : ls.get? id = l? at hid
      cases hid with
      | untold hnone =>
        refine .untold fun k hk' => ?_
        obtain ⟨k₁, hk₁, rfl⟩ := Option.map_eq_some_iff.1 hk'
        exact huntold hl _ (hnone _ hk₁)
      | told hwire hconnection htask =>
        obtain ⟨hwire', hconnection', htask'⟩ := htold _ _ hk hl hconnection htask
        exact .told (hwire.trans (by rw [hwire'])) hconnection' htask'
    · simpa [hj] using h.pictures j

theorem Waits.mono {n n' : Nat} {us us' : List Waiting} (h : Waits n us ls) (hn : n ≤ n')
    (hus : us'.Sublist us) (hls : ∀ j, ls.get? j = none → ls'.get? j = none) :
    Waits n' us' ls' where
  nodup := h.nodup.sublist (hus.filterMap _)
  untold j hj := (h.untold j (hus.subset hj)).imp (fun hlt => Nat.lt_of_lt_of_le hlt hn) (hls j)

theorem none_of_update (hls : ∀ j, ls'.get? j = if id = j then (ls.get? j).map g else ls.get? j)
    (j : SessionId) (hj : ls.get? j = none) : ls'.get? j = none := by
  rw [hls, hj, Option.map_none, ite_self]

theorem Questions.task {ids : List SessionId} (h : Questions ids ks) {k : Link}
    (hk : ks[id]? = some k) (hid : id ∈ ids) : ∃ t, k.task = some t ∧ t.IsOpen := by
  obtain ⟨k', t, hk', ht, hopen⟩ := h.isOpen id hid
  rw [hk] at hk'
  cases hk'
  exact ⟨t, ht, hopen⟩

theorem Questions.update {ids ids' : List SessionId} (h : Questions ids ks) (id : SessionId)
    (hattentive : ∀ k t, ks[id]? = some k → (f k).task = some t → t.Attentive)
    (hnodup : ids'.Nodup) (hothers : ∀ j ∈ ids', j ≠ id → j ∈ ids)
    (hown : id ∈ ids' → ∃ k t, ks[id]? = some k ∧ (f k).task = some t ∧ t.IsOpen) :
    Questions ids' (ks.modify id f) where
  attentive j k t hk ht := by
    rw [List.getElem?_modify] at hk
    obtain ⟨k₁, hk₁, rfl⟩ := Option.map_eq_some_iff.1 hk
    by_cases hj : id = j
    · subst hj
      simp only [if_true] at ht
      exact hattentive k₁ t hk₁ ht
    · simp only [hj, if_false] at ht
      exact h.attentive j k₁ t hk₁ ht
  nodup := hnodup
  isOpen j hj := by
    by_cases hid : j = id
    · subst hid
      obtain ⟨k, t, hk, ht, hopen⟩ := hown hj
      exact ⟨f k, t, by simp [hk], ht, hopen⟩
    · obtain ⟨k, t, hk, ht, hopen⟩ := h.isOpen j (hothers j hj hid)
      exact ⟨k, t, by simp [hk, Ne.symm hid], ht, hopen⟩

/-- A change of a session that leaves its stage and the answer of the user alone leaves the
questions as they are. -/
theorem Questions.keep {ids : List SessionId} (h : Questions ids ks)
    {change : SessionTask → SessionTask}
    (hf : ∀ k, (f k).task = k.task.map change) (hstage : ∀ t, (change t).stage = t.stage)
    (hanswer : ∀ t, (change t).answer = t.answer) : Questions ids (ks.modify id f) := by
  refine h.update id (fun k t hk ht => ?_) h.nodup (fun j hj _ => hj) fun hid => ?_
  · rw [hf] at ht
    obtain ⟨t₁, ht₁, rfl⟩ := Option.map_eq_some_iff.1 ht
    exact (h.attentive id k t₁ hk ht₁).of_same (hstage t₁) (hanswer t₁)
  · obtain ⟨k, t, hk, ht, hopen⟩ := h.isOpen id hid
    exact ⟨k, change t, hk, by rw [hf, ht]; rfl, hopen.of_same (hstage t) (hanswer t)⟩

/-! ## The node handles a command -/

variable {r r' : NodeRun} {a a' : AtHand} {s : Station}

theorem Mirrors.room (h : Mirrors r a s) : s.room = r.room := by
  funext id
  have hid := h.lines.pictures id
  unfold Station.room NodeRun.room
  generalize r.links[id]? = k? at hid
  generalize s.lines.get? id = l? at hid
  cases hid with
  | untold hnone =>
    cases k? with
    | none => rfl
    | some k => simp [hnone k rfl]
  | @told k l _ _ htask =>
    cases ht : k.task <;> simp [htask, ht]

/-- A session is changed on both sides, in a way that does not touch the question. -/
theorem Mirrors.onTask (h : Mirrors r a s) {id : SessionId} {change : SessionTask → SessionTask}
    (hls : ∀ j, ls'.get? j =
      if id = j then (s.lines.get? j).map (fun l => l.onTask change) else s.lines.get? j)
    (hstage : ∀ t, (change t).stage = t.stage) (hanswer : ∀ t, (change t).answer = t.answer) :
    Mirrors (r.onTask id change) a { s with lines := ls' } :=
  { h with
    lines := h.lines.update id hls
      (fun _ _ _ _ hconnection htask => ⟨rfl, hconnection, congrArg (Option.map change) htask⟩)
      fun _ _ hk => congrArg (Option.map change) hk
    waits := h.waits.mono (Nat.le_of_eq (List.length_modify ..).symm) (List.Sublist.refl _)
      (none_of_update hls)
    questions := h.questions.keep (fun _ => rfl) hstage hanswer }

/-- The node asks for something, other than that a session is started. -/
theorem Mirrors.effect (h : Mirrors r a s) {e : Node.Effect}
    (he : ∀ id direction, e ≠ .start id direction) (nonce : Bytes) :
    Mirrors (r.perform e) a
      { s with
        lines := Station.serve s.config s.now nonce s.lines e
        dials := s.dials ++ (Station.dial? e).toList } := by
  cases e with
  | start id direction => exact absurd rfl (he id direction)
  | dial d delay =>
    have hdials : ∀ dial : Dial, dial.device = d → r.stopped = false →
        (s.dials ++ [d]).Perm ((a.dials ++ (r.dials ++ [dial])).map (·.device)) := by
      rintro dial rfl hr
      simpa using (h.dials hr).append_right [dial.device]
    simp only [perform]
    split
    · exact { h with dials := hdials _ rfl }
    · exact { h with dials := hdials _ rfl }
  | group e =>
    rw [show (Station.dial? (.group e)).toList = [] from rfl, List.append_nil]
    cases e with
    | announce x => exact { h with }
    | deliver id x =>
      exact h.onTask (fun j => Table.get?_modify s.lines id j _) (fun _ => rfl) fun _ => rfl
    | kick id =>
      exact h.onTask (fun j => Table.get?_modify s.lines id j _) SessionTask.stage_kick
        SessionTask.answer_kick

theorem Mirrors.effects {es : List Node.Effect} (h : Mirrors r a s)
    (hes : ∀ e ∈ es, ∀ id direction, e ≠ .start id direction) (nonce : Bytes) :
    Mirrors (es.foldl perform r) a
      { s with
        lines := es.foldl (Station.serve s.config s.now nonce) s.lines
        dials := s.dials ++ es.filterMap Station.dial? } := by
  induction es generalizing r s with
  | nil => simpa using h
  | cons e es ih =>
    have hrest := ih (h.effect (hes e List.mem_cons_self) nonce)
      fun e' he' => hes e' (List.mem_cons_of_mem _ he')
    have hdials : s.dials ++ (e :: es).filterMap Station.dial? =
        s.dials ++ (Station.dial? e).toList ++ es.filterMap Station.dial? := by
      rw [List.filterMap_cons]
      cases Station.dial? e <;> simp
    rw [hdials]
    exact hrest

/-- The node starts a session on a connection of which it has just been told. -/
theorem Mirrors.startSession (h : Mirrors r a s) {id : SessionId} {l : Station.Line}
    (hl : s.lines.get? id = some l) (hnew : l.task = none) (direction : Direction) :
    Mirrors (r.perform (.start id direction)) a
      { s with
        lines := Station.serve s.config s.now (r.nonce id) s.lines (.start id direction) } := by
  obtain ⟨k, hk, hwire, hconnection, htask⟩ := h.lines.wire hl
  have hnotes := (SessionTask.starts_of_start r.config.sessionSettings direction l.wire.mine
    l.wire.theirs r.config.outboxCapacity r.now (r.nonce id)).1
  have hattentive := SessionTask.attentive_start r.config.sessionSettings direction l.wire.mine
    l.wire.theirs r.config.outboxCapacity r.now (r.nonce id)
  have hperform : r.perform (.start id direction) = r.onLink id fun k =>
      { k with
        task := some (SessionTask.start r.config.sessionSettings direction l.wire.mine
          l.wire.theirs r.config.outboxCapacity r.now (r.nonce id)).1 } := by
    simp only [perform, NodeRun.startSession, hwire, Option.getD_some, hnotes, List.foldl_nil]
  have hls := fun j => Table.get?_modify s.lines id j
    (·.take s.config s.now (r.nonce id) (.start id direction))
  rw [hperform]
  exact
    { h with
      lines := h.lines.update id hls
        (fun k' l' _ hl' hconnection' _ => by
          rw [hl] at hl'
          cases hl'
          exact ⟨rfl, hconnection', by rw [Station.Line.take, h.config, h.now]⟩)
        fun hnone => by
          rw [hl] at hnone
          cases hnone
      waits := h.waits.mono (Nat.le_of_eq (List.length_modify ..).symm) (List.Sublist.refl _)
        (none_of_update hls)
      questions := h.questions.update id
        (fun _ t _ ht => by
          cases ht
          exact hattentive)
        h.questions.nodup (fun j hj _ => hj) fun hid => by
          obtain ⟨t, ht, -⟩ := h.questions.task hk hid
          rw [hnew, ht] at htask
          cases htask }

/-- A command makes the node start one session, or none. -/
theorem start_or_not (n : Node) (room : SessionId → Room) (c : Node.Command) :
    (∃ id direction, (n.handle room c).effects = [.start id direction]) ∨
      ∀ e ∈ (n.handle room c).effects, ∀ id direction, e ≠ .start id direction := by
  cases hop : n.operation? c with
  | some op =>
    refine .inr ?_
    obtain ⟨-, heffects | ⟨d, delay, -, -, -, heffects⟩⟩ := Node.handle_of_operation hop room
    · simp [heffects]
    · rw [heffects]
      intro e he id direction
      rintro rfl
      simp at he
  | none =>
    obtain ⟨a, -, heffects⟩ | ⟨a, d, -, heffects⟩ | heffects :=
      Node.effects_of_connection hop room
    · exact .inl ⟨_, _, heffects⟩
    · exact .inl ⟨_, _, heffects⟩
    · exact .inr (by simp [heffects])

/-- The node handles the command that comes next. A session is started only on a connection of which
the node has just been told. -/
theorem Mirrors.command {c : Node.Command} {cs : List Node.Command}
    (h : Mirrors r { a with commands := c :: cs } s) (hr : r.stopped = false)
    (hstart : ∀ id direction, .start id direction ∈ (r.node.handle r.room c).effects →
      ∃ l, s.lines.get? id = some l ∧ l.task = none) :
    ∃ nonce rest, s.stopped = false ∧ s.queue = c :: rest ∧
      Mirrors (r.tell c) { a with commands := cs }
        { s.handle nonce c rest with
          dials := s.dials ++ (r.node.handle r.room c).effects.filterMap Station.dial?
          stopped := false } := by
  have hqueue : s.queue = c :: (cs ++ commandsOf a.reports) := h.queue hr
  have hhandle : s.node.handle s.room c = r.node.handle r.room c := by rw [h.node, h.room]
  have htell : r.tell c = (r.node.handle r.room c).effects.foldl perform
      { r with node := (r.node.handle r.room c).node } := rfl
  have base : Mirrors { r with node := (r.node.handle r.room c).node } { a with commands := cs }
      { s with
        node := (r.node.handle r.room c).node, queue := cs ++ commandsOf a.reports
        stopped := false } :=
    { h with node := rfl, stopped := hr.symm, queue := fun _ => rfl }
  obtain ⟨id, direction, heffects⟩ | hnone := start_or_not r.node r.room c
  · obtain ⟨l, hl, hnew⟩ := hstart id direction (by rw [heffects]; exact List.mem_singleton_self _)
    refine ⟨r.nonce id, _, h.stopped.trans hr, hqueue, ?_⟩
    have hdials : s.dials ++ [.start id direction].filterMap Station.dial? = s.dials :=
      List.append_nil _
    simp only [Station.handle, hhandle, htell, heffects, List.foldl_cons, List.foldl_nil, hdials]
    exact base.startSession hl hnew direction
  · refine ⟨[], _, h.stopped.trans hr, hqueue, ?_⟩
    simp only [Station.handle, hhandle, htell]
    exact base.effects hnone []

/-! ## One run leads to another -/

/-- Whatever station mirrors the one run, things can happen to it at that moment after which it
mirrors the other. -/
def Leads (r : NodeRun) (a : AtHand) (r' : NodeRun) (a' : AtHand) : Prop :=
  ∀ s, Mirrors r a s → ∃ s', s.Meanwhile s' ∧ Mirrors r' a' s'

theorem Leads.of_same (h : ∀ s, Mirrors r a s → Mirrors r' a' s) : Leads r a r' a' :=
  fun s hs => ⟨s, .refl s, h s hs⟩

theorem Leads.trans {r'' : NodeRun} {a'' : AtHand} (h : Leads r a r' a')
    (h' : r'.stopped = r.stopped → Leads r' a' r'' a'') : Leads r a r'' a'' := by
  intro s hs
  obtain ⟨s₁, hmean₁, hm₁⟩ := h s hs
  have hstopped : r'.stopped = r.stopped := by
    obtain ⟨-, -, -, hsame⟩ := hmean₁
    rw [← hm₁.stopped, hsame, hs.stopped]
  obtain ⟨s₂, hmean₂, hm₂⟩ := h' hstopped s₁ hm₁
  exact ⟨s₂, hmean₁.trans hmean₂, hm₂⟩

/-- What is gone through one after the other. -/
theorem Leads.foldl {α : Type} {f : NodeRun → α → NodeRun} {A : List α → AtHand} {b : Bool}
    (hf : ∀ r x xs, r.stopped = b → Leads r (A (x :: xs)) (f r x) (A xs)) {r : NodeRun}
    (hr : r.stopped = b) (xs : List α) : Leads r (A xs) (xs.foldl f r) (A []) := by
  induction xs generalizing r with
  | nil => exact .of_same fun s hs => hs
  | cons x xs ih => exact (hf r x xs hr).trans fun hsame => ih (hsame.trans hr)

variable {cs : List Node.Command} {rs : List (Time × SessionId × Report)} {us : List Waiting}
  {ds : List Dial}

/-- The node handles the command that comes next. -/
theorem Mirrors.tell {c : Node.Command}
    (h : Mirrors r { commands := c :: cs, reports := rs, waiting := us, dials := ds } s)
    (hc : c.isShutdown = false) (hr : r.stopped = false)
    (hstart : ∀ id direction, .start id direction ∈ (r.node.handle r.room c).effects →
      ∃ l, s.lines.get? id = some l ∧ l.task = none) :
    ∃ s', s.Meanwhile s' ∧
      Mirrors (r.tell c) { commands := cs, reports := rs, waiting := us, dials := ds } s' := by
  obtain ⟨nonce, rest, hrunning, hqueue, hm⟩ := Mirrors.command (a := ⟨[], rs, us, ds⟩) h hr hstart
  have hhandle : s.node.handle s.room c = r.node.handle r.room c := by rw [h.node, h.room]
  have heq : s.handle nonce c rest =
      { s.handle nonce c rest with
        dials := s.dials ++ (r.node.handle r.room c).effects.filterMap Station.dial?
        stopped := false } := by
    simp [Station.handle, hc, hhandle]
  have hstep : Station.Step s (.handles nonce) (s.handle nonce c rest) :=
    .handles nonce hrunning hqueue
  rw [heq] at hstep
  exact ⟨_, hstep.meanwhile rfl hrunning.symm, hm⟩

theorem not_start_of_handle {n : Node} {room : SessionId → Room} {c : Node.Command}
    (haccepted : ∀ b, c ≠ .accepted b) (hconnected : ∀ b d, c ≠ .connected b d) (id : SessionId)
    (direction : Direction) : .start id direction ∉ (n.handle room c).effects := by
  intro hmem
  obtain ⟨b, hb, -⟩ | ⟨b, d, hb, -⟩ := Node.start_of_handle hmem
  · exact haccepted b hb
  · exact hconnected b d hb

/-- The node handles a command that is not about a connection. -/
theorem leads_tell {c : Node.Command} (hr : r.stopped = false) (hc : c.isShutdown = false)
    (haccepted : ∀ b, c ≠ .accepted b) (hconnected : ∀ b d, c ≠ .connected b d) :
    Leads r { commands := c :: cs, reports := rs, waiting := us, dials := ds } (r.tell c)
      { commands := cs, reports := rs, waiting := us, dials := ds } :=
  fun _ hs => hs.tell hc hr fun id direction hmem =>
    absurd hmem (not_start_of_handle haccepted hconnected id direction)

/-- The node is given a command that is not about a connection, and handles it at once. -/
theorem leads_told {c : Node.Command} (hr : r.stopped = false) (hc : c.isShutdown = false)
    (haccepted : ∀ b, c ≠ .accepted b) (hconnected : ∀ b d, c ≠ .connected b d)
    {x : Station.Happening} (hx : ∀ s, Mirrors r {} s → Station.Step s x (s.tell c)) :
    Leads r {} (r.tell c) {} := by
  intro s h
  have htold : Mirrors r { commands := [c] } (s.tell c) :=
    { h with queue := fun hr => congrArg (· ++ [c]) (h.queue hr) }
  obtain ⟨s', hmean, hs'⟩ := leads_tell hr hc haccepted hconnected _ htold
  exact ⟨s', ((hx s h).meanwhile rfl rfl).trans hmean, hs'⟩

/-! ## Connections that open -/

/-- The node is told of a connection, and starts a session on it. -/
theorem Mirrors.connects {ds' : List Dial} {id : SessionId} {k : Link} {w : Wire}
    {how : Station.Opening} (h : Mirrors r { waiting := us, dials := ds' } s)
    (hr : r.stopped = false) (hk : r.links[id]? = some k) (hw : r.wires[id]? = some w)
    (huntold : s.lines.get? id = none) (hid : .connection id ∉ us ++ r.backlog)
    (hdialed : ∀ d ∈ how.dialed?, d ∈ s.dials)
    (hdials : (match how.dialed? with
      | some d => s.dials.erase d
      | none => s.dials).Perm ((ds ++ r.dials).map Dial.device)) :
    ∃ s', s.Meanwhile s' ∧
      Mirrors (r.tell (how.command (r.arrival id))) { waiting := us, dials := ds } s' := by
  have harrival : r.arrival id = Station.arrival id w := by
    rw [NodeRun.arrival, hw]
    rfl
  have hget : ∀ j, (s.opened id w k.connection how).lines.get? j =
      if id = j then some { wire := w, opening := how, connection := k.connection }
      else s.lines.get? j := fun j => Table.get?_put ..
  -- First the connection is opened, then the node is told of it.
  have hopened : Mirrors r
      { commands := [how.command (r.arrival id)], waiting := us, dials := ds }
      (s.opened id w k.connection how) :=
    { h with
      queue := fun hr => by
        rw [harrival]
        exact congrArg (· ++ [_]) (h.queue hr)
      dials := fun _ => hdials
      lines :=
        { length := h.lines.length
          pictures := fun j => by
            rw [hget]
            split
            · rename_i hj
              subst hj
              have hpicture := h.lines.pictures id
              rw [hk, huntold] at hpicture
              rw [hk]
              cases hpicture with
              | untold hnone => exact .told hw rfl (hnone k rfl).symm
            · exact h.lines.pictures j }
      waits :=
        { nodup := h.waits.nodup
          untold := fun j hj => by
            rw [hget, if_neg]
            · exact h.waits.untold j hj
            · rintro rfl
              exact hid hj } }
  obtain ⟨s', hmean, hs'⟩ := hopened.tell (by cases how <;> rfl)
    hr fun j direction hmem => by
      have hj : j = id := by
        obtain ⟨b, hb, rfl, -⟩ | ⟨b, d, hb, rfl, -⟩ := Node.start_of_handle hmem
        all_goals
          cases how <;> cases hb <;> rfl
      exact ⟨_, by rw [hget, if_pos hj.symm], rfl⟩
  have hstep : Station.Step s (.opens id w k.connection how) (s.opened id w k.connection how) :=
    .opens w k.connection huntold hdialed
  exact ⟨s', (hstep.meanwhile rfl rfl).trans hmean, hs'⟩

theorem Mirrors.untold_of_le (h : Mirrors r a s) {id : SessionId} (hid : r.links.length ≤ id) :
    s.lines.get? id = none := by
  cases hl : s.lines.get? id with
  | none => rfl
  | some l =>
    obtain ⟨k, hk, -⟩ := h.lines.wire hl
    rw [List.getElem?_eq_none hid] at hk
    cases hk

/-- Of a connection that opens the node is not told yet. -/
theorem Mirrors.openLink (h : Mirrors r a s) (w : Wire) (capacity : Option Nat) :
    Mirrors (r.openLink w capacity).2 a s where
  config := h.config
  node := h.node
  registry := h.registry
  now := h.now
  stopped := h.stopped
  reports := h.reports
  queue := h.queue
  dials := h.dials
  lines :=
    { length := by simp [NodeRun.openLink, h.lines.length]
      pictures := fun id => by
        by_cases hid : id < r.links.length
        · have hwire : id < r.wires.length := h.lines.length ▸ hid
          simp only [NodeRun.openLink, List.getElem?_append_left hid,
            List.getElem?_append_left hwire]
          exact h.lines.pictures id
        · rw [h.untold_of_le (Nat.le_of_not_lt hid)]
          refine .untold fun k hk => ?_
          simp only [NodeRun.openLink, List.getElem?_append_right (Nat.le_of_not_lt hid)] at hk
          rw [List.mem_singleton.1 (List.mem_of_getElem? hk)]
          rfl }
  waits := h.waits.mono (by simp [NodeRun.openLink]) (List.Sublist.refl _) fun _ hj => hj
  questions :=
    { attentive := fun id k t hk ht => by
        by_cases hid : id < r.links.length
        · simp only [NodeRun.openLink, List.getElem?_append_left hid] at hk
          exact h.questions.attentive id k t hk ht
        · simp only [NodeRun.openLink, List.getElem?_append_right (Nat.le_of_not_lt hid)] at hk
          rw [List.mem_singleton.1 (List.mem_of_getElem? hk)] at ht
          cases ht
      nodup := h.questions.nodup
      isOpen := fun id hid => by
        obtain ⟨k, t, hk, hopen⟩ := h.questions.isOpen id hid
        refine ⟨k, t, ?_, hopen⟩
        simp only [NodeRun.openLink]
        rw [List.getElem?_append_left (List.getElem?_eq_some_iff.1 hk).1, hk] }

/-- The node is told at once of a connection that it opened itself. -/
theorem Mirrors.opens {ds' : List Dial} {w : Wire} {how : Station.Opening}
    (h : Mirrors r { dials := ds' } s) (hr : r.stopped = false) (capacity : Option Nat)
    (hdialed : ∀ d ∈ how.dialed?, d ∈ s.dials)
    (hdials : (match how.dialed? with
      | some d => s.dials.erase d
      | none => s.dials).Perm ((ds ++ r.dials).map Dial.device)) :
    ∃ s', s.Meanwhile s' ∧
      Mirrors ((r.openLink w capacity).2.tell
        (how.command ((r.openLink w capacity).2.arrival r.links.length))) { dials := ds } s' := by
  have hid : .connection r.links.length ∉ ([] : List Waiting) ++ (r.openLink w capacity).2.backlog :=
    fun hmem => Nat.lt_irrefl _ (h.waits.untold _ hmem).1
  have hwire : (r.openLink w capacity).2.wires[r.links.length]? = some w := by
    rw [← h.lines.length]
    simp [NodeRun.openLink]
  have hlt : r.links.length < (r.openLink w capacity).2.links.length := by
    simp [NodeRun.openLink]
  exact (h.openLink w capacity).connects hr (List.getElem?_eq_getElem hlt) hwire
    (h.untold_of_le (Nat.le_refl _)) hid hdialed hdials

end NodeRun

end Simulation

end SharedClipboard
