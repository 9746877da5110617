import SharedClipboard.Proofs.Node.Mirror

/-!
# What happens at one moment

Every part of a turn of a `Simulation.NodeRun` is something that can happen to a station (`Leads`):
the listener takes up connections, dials come to their end, discovery reports, the sessions take
turns, and the node hears what they report (`leads_turn`). So whatever happens until the run has
settled can happen to a station that mirrors it (`leads_settle`).

A user who answers at once is the one thing that does not fit step by step: the run puts the answer
where the session will find it within the step that asks. The station makes the step and lets the
user answer then. That no answer is overwritten by this is what `SessionTask.Heeds` is for.
-/

namespace SharedClipboard.Simulation.NodeRun

variable {r r' : NodeRun} {a a' : AtHand} {s : Station} {id : SessionId}
  {ls : Table SessionId Station.Line} {ks : List Link} {us : List Waiting} {ds : List Dial}

/-! ## The listener -/

/-- The listener takes up one of what waits, or leaves it waiting. -/
def takeUp (r : NodeRun) (w : Waiting) : NodeRun :=
  if r.now < r.acceptsFrom then { r with backlog := r.backlog ++ [w] }
  else match w with
    | .connection id => r.tell (.accepted (r.arrival id))
    | .failure => { r with acceptsFrom := r.now + acceptBackoff }

theorem acceptAll_eq (r : NodeRun) :
    r.acceptAll = r.backlog.foldl takeUp { r with backlog := [] } := rfl

theorem Waits.perm {n : Nat} {us' : List Waiting} (h : Waits n us ls) (hus : us'.Perm us) :
    Waits n us' ls where
  nodup := (hus.filterMap _).nodup_iff.2 h.nodup
  untold j hj := h.untold j (hus.mem_iff.1 hj)

theorem leads_takeUp (hr : r.stopped = false) (w : Waiting) :
    Leads r { waiting := w :: us } (r.takeUp w) { waiting := us } := by
  unfold takeUp
  split
  · refine .of_same fun s h => ?_
    have hperm : (us ++ (r.backlog ++ [w])).Perm (w :: us ++ r.backlog) := by
      rw [← List.append_assoc]
      exact List.perm_append_singleton w (us ++ r.backlog)
    exact { h with waits := h.waits.perm hperm }
  · cases w with
    | failure =>
      refine .of_same fun s h => ?_
      exact { h with
        waits := h.waits.mono (Nat.le_refl _) (List.sublist_cons_self ..) fun _ hj => hj }
    | connection id =>
      intro s h
      obtain ⟨hlt, huntold⟩ := h.waits.untold id List.mem_cons_self
      have hnodup : (id :: (us ++ r.backlog).filterMap Waiting.connection?).Nodup := h.waits.nodup
      have hid : .connection id ∉ us ++ r.backlog := fun hmem =>
        (List.nodup_cons.1 hnodup).1 (List.mem_filterMap.2 ⟨_, hmem, rfl⟩)
      have hwires : id < r.wires.length := h.lines.length ▸ hlt
      have h' : Mirrors r { waiting := us } s :=
        { h with
          waits := h.waits.mono (Nat.le_refl _) (List.sublist_cons_self ..) fun _ hj => hj }
      have hdialed : ∀ d ∈ Station.Opening.dialed? .accepted, d ∈ s.dials :=
        fun d hd => by cases hd
      exact h'.connects hr (List.getElem?_eq_getElem hlt) (List.getElem?_eq_getElem hwires)
        huntold hid hdialed (h.dials hr)

theorem leads_acceptAll (hr : r.stopped = false) : Leads r {} r.acceptAll {} := by
  have hbase : Leads r {} { r with backlog := [] } { waiting := r.backlog } :=
    .of_same fun s h => { h with waits := by simpa using h.waits }
  rw [acceptAll_eq]
  exact hbase.trans fun hsame => Leads.foldl (A := fun us => { waiting := us })
    (fun r w us h => leads_takeUp h w) (hsame.trans hr) r.backlog

/-! ## Dials -/

/-- The dial of a device fails, or a connection opens. -/
theorem finishDial_spec (r : NodeRun) (d : Device) (began : Time) (route : Route) :
    ∃ log, (∃ e, r.finishDial d began route = (.error e, { r with dialLog := log })) ∨
      ∃ w capacity, r.finishDial d began route =
        (.ok r.links.length, (NodeRun.openLink { r with dialLog := log } w capacity).2) := by
  unfold finishDial
  cases route.failure with
  | some e => exact ⟨_, .inl ⟨e, rfl⟩⟩
  | none =>
    exact ⟨⟨began, d, .ok r.links.length⟩ :: r.dialLog,
      .inr ⟨⟨d.socketAddress, route.mine, route.theirs⟩, route.pipeCapacity, rfl⟩⟩

/-- The device whose dial is at hand is being dialed, and the others are besides. -/
theorem Mirrors.dialing {d : Dial} (h : Mirrors r { dials := d :: ds } s) (hr : r.stopped = false) :
    d.device ∈ s.dials ∧ (s.dials.erase d.device).Perm ((ds ++ r.dials).map Dial.device) := by
  have herase := (h.dials hr).erase d.device
  rw [List.cons_append, List.map_cons, List.erase_cons_head] at herase
  exact ⟨(h.dials hr).mem_iff.2 List.mem_cons_self, herase⟩

theorem leads_dialFails (hr : r.stopped = false) (d : Dial) (e : ConnectError) :
    Leads r { dials := d :: ds } (r.tell (.dialFailed d.device e)) { dials := ds } := by
  intro s h
  obtain ⟨hmem, hrest⟩ := h.dialing hr
  have hfailed : Mirrors r { commands := [.dialFailed d.device e], dials := ds }
      { s.tell (.dialFailed d.device e) with dials := s.dials.erase d.device } :=
    { h with
      queue := fun hr => congrArg (· ++ [_]) (h.queue hr)
      dials := fun _ => hrest }
  obtain ⟨s', hmean, hs'⟩ := leads_tell hr rfl (by simp) (by simp) _ hfailed
  exact ⟨s', ((Station.Step.dialFails e hmem).meanwhile rfl rfl).trans hmean, hs'⟩

theorem leads_dialOpens (hr : r.stopped = false) (d : Dial) (w : Wire) (capacity : Option Nat) :
    Leads r { dials := d :: ds }
      ((r.openLink w capacity).2.tell
        (.connected ((r.openLink w capacity).2.arrival r.links.length) d.device))
      { dials := ds } := by
  intro s h
  obtain ⟨hmem, hrest⟩ := h.dialing hr
  have hdialed : ∀ d' ∈ Station.Opening.dialed? (.dialed d.device), d' ∈ s.dials := by
    rintro d' ⟨⟩
    exact hmem
  exact h.opens hr capacity hdialed hrest

theorem leads_stepDial (hr : r.stopped = false) (d : Dial) :
    Leads r { dials := d :: ds } (r.stepDial d) { dials := ds } := by
  -- A dial that is not over goes back to the others, whose order does not matter.
  have again : ∀ d' : Dial, d'.device = d.device →
      Leads r { dials := d :: ds } { r with dials := r.dials ++ [d'] } { dials := ds } := by
    intro d' hd'
    refine .of_same fun s h => { h with dials := fun hr => (h.dials hr).trans ?_ }
    have hperm : (d :: ds ++ r.dials).Perm (ds ++ (r.dials ++ [d])) := by
      rw [← List.append_assoc]
      exact (List.perm_append_singleton d (ds ++ r.dials)).symm
    simpa [hd'] using hperm.map Dial.device
  unfold stepDial
  split
  · exact again d rfl
  · cases d.stage with
    | waiting start => exact again _ rfl
    | opening began due route =>
      simp only
      obtain ⟨log, hends⟩ := r.finishDial_spec d.device began route
      have hlogged : Leads r { dials := d :: ds } { r with dialLog := log } { dials := d :: ds } :=
        .of_same fun s h => { h with }
      obtain ⟨e, heq⟩ | ⟨w, capacity, heq⟩ := hends
      · rw [heq]
        exact hlogged.trans fun hsame => leads_dialFails (hsame.trans hr) d e
      · rw [heq]
        exact hlogged.trans fun hsame => leads_dialOpens (hsame.trans hr) d w capacity

theorem leads_stepDials (hr : r.stopped = false) : Leads r {} r.stepDials {} := by
  have hbase : Leads r {} { r with dials := [] } { dials := r.dials } :=
    .of_same fun s h => { h with dials := by simpa using h.dials }
  exact hbase.trans fun hsame => Leads.foldl (A := fun ds => { dials := ds })
    (fun r d ds h => leads_stepDial h d) (hsame.trans hr) r.dials

/-! ## Discovery and reports -/

theorem leads_discover (hr : r.stopped = false) : Leads r {} r.discover {} := by
  unfold discover
  split
  · exact .of_same fun s h => h
  · rename_i id _
    have hbase : Leads r {} { r with segment := (r.segment.drain id).2 } {} :=
      .of_same fun s h => { h with }
    exact hbase.trans fun hsame => Leads.foldl (A := fun _ => {})
      (fun r e _ h => leads_told h rfl (by simp) (by simp) fun s _ => .discovers e)
      (hsame.trans hr) (r.segment.drain id).1

/-- A node that has stopped does not listen, and neither does the station. -/
theorem leads_hearReports : Leads r { reports := r.surroundings.reports } r.hearReports {} := by
  unfold hearReports
  simp only
  split
  · rename_i hstopped
    refine .of_same fun s h => ?_
    have hno : ∀ {p : Prop}, r.stopped = false → p := fun hr => by
      rw [show r.stopped = true from hstopped] at hr
      cases hr
    exact { h with reports := rfl, queue := fun hr => hno hr }
  · rename_i hstopped
    have hbase : Leads r { reports := r.surroundings.reports }
        { r with surroundings := { r.surroundings with reports := [] } }
        { commands := commandsOf r.surroundings.reports } :=
      .of_same fun s h =>
        { h with
          reports := rfl
          queue := fun hr => (h.queue hr).trans (List.append_nil _).symm }
    exact hbase.trans fun hsame => Leads.foldl
      (A := fun (xs : List (Time × SessionId × Report)) =>
        { commands := xs.map fun x => .report x.2.1 x.2.2 })
      (f := fun r (x : Time × SessionId × Report) => r.tell (.report x.2.1 x.2.2))
      (fun r x xs h => leads_tell h rfl (by simp) (by simp))
      (hsame.trans (by simpa using hstopped)) r.surroundings.reports.reverse

/-! ## What a session tells -/

theorem commandsOf_cons (x : Time × SessionId × Report) (rs : List (Time × SessionId × Report)) :
    commandsOf (x :: rs) = commandsOf rs ++ [.report x.2.1 x.2.2] := by
  simp [commandsOf]

/-- What becomes of the surroundings by what a session tells, but for the questions. -/
structure Hears (id : SessionId) (notes : List SessionTask.Note) (w w' : Surroundings) : Prop where
  now : w'.now = w.now
  registry : w'.registry = notes.foldl Station.learn w.registry
  reports : commandsOf w'.reports = commandsOf w.reports ++ notes.filterMap (Station.report? id)

theorem hears (id : SessionId) (notes : List SessionTask.Note) (w : Surroundings) :
    Hears id notes w (notes.foldl (Surroundings.hear id) w) := by
  induction notes generalizing w with
  | nil => exact ⟨rfl, rfl, (List.append_nil _).symm⟩
  | cons n notes ih =>
    have hone : Hears id [n] w (w.hear id n) := by
      cases n with
      | report x => exact ⟨rfl, rfl, commandsOf_cons _ _⟩
      | asks =>
        simp only [Surroundings.hear]
        split <;> exact ⟨rfl, rfl, (List.append_nil _).symm⟩
      | withdraws =>
        simp only [Surroundings.hear]
        split <;> exact ⟨rfl, rfl, (List.append_nil _).symm⟩
      | remembers f =>
        simp only [Surroundings.hear]
        cases hf : w.registry.remember f with
        | ok x => exact ⟨rfl, by simp [Station.learn, hf], (List.append_nil _).symm⟩
        | error e => exact ⟨rfl, by simp [Station.learn, hf], (List.append_nil _).symm⟩
    have hrest := ih (w.hear id n)
    refine ⟨hrest.now.trans hone.now, ?_, ?_⟩
    · rw [List.foldl_cons, hrest.registry, hone.registry]
      rfl
    · rw [List.foldl_cons, hrest.reports, hone.reports, List.append_assoc, ← List.filterMap_append]
      rfl

/-- A session that does not ask opens no question, and one that withdraws its question has none. -/
theorem questions_of_not_asks {id : SessionId} {notes : List SessionTask.Note}
    (h : .asks ∉ notes) (w : Surroundings) :
    (notes.foldl (Surroundings.hear id) w).openQuestions.Sublist w.openQuestions ∧
      (id ∈ (notes.foldl (Surroundings.hear id) w).openQuestions → .withdraws ∉ notes) := by
  induction notes generalizing w with
  | nil => exact ⟨List.Sublist.refl _, fun _ => List.not_mem_nil⟩
  | cons n notes ih =>
    obtain ⟨hsub, hkept⟩ := ih (fun hn => h (List.mem_cons_of_mem _ hn)) (w.hear id n)
    have hone : (w.hear id n).openQuestions.Sublist w.openQuestions ∧
        (id ∈ (w.hear id n).openQuestions → n ≠ .withdraws) := by
      cases n with
      | asks => exact absurd List.mem_cons_self h
      | report x => exact ⟨List.Sublist.refl _, by simp⟩
      | remembers f =>
        simp only [Surroundings.hear]
        split <;> exact ⟨List.Sublist.refl _, by simp⟩
      | withdraws =>
        simp only [Surroundings.hear]
        split
        · exact ⟨List.filter_sublist, by simp⟩
        · rename_i hnot
          exact ⟨List.Sublist.refl _, fun hid => absurd (List.contains_iff_mem.2 hid) hnot⟩
    refine ⟨hsub.trans hone.1, fun hid hn => ?_⟩
    obtain rfl | hn := List.mem_cons.1 hn
    · exact hone.2 (hsub.subset hid) rfl
    · exact hkept hid hn

theorem heeds_of_move {l : Station.Line} {c : Config} {now : Time} {trusts : Fingerprint → Bool}
    {part : Station.Part} {m : SessionTask.Moved} {t : SessionTask} (hl : l.task = some t)
    (ht : t.Attentive) (hm : l.move? c now trusts part = some m) : SessionTask.Heeds t m := by
  simp only [Station.Line.move?, hl, Option.bind_some] at hm
  cases part with
  | reader => exact SessionTask.heeds_of_readStep ht hm
  | session n => exact SessionTask.heeds_of_driveStep ht hm
  | writer => exact SessionTask.heeds_of_writeStep ht hm
  | heed => exact SessionTask.heeds_of_heedStep ht hm
  | close => exact SessionTask.heeds_of_endStep hm

/-! ## The links take turns -/

/-- The run with other surroundings and another link in the place of one. -/
def withLink (r : NodeRun) (id : SessionId) (w : Surroundings) (k : Link) : NodeRun :=
  { r with surroundings := w }.onLink id fun _ => k

theorem links_withLink {k₀ : Link} (hk : r.links[id]? = some k₀) (w : Surroundings) (k : Link) :
    (r.withLink id w k).links[id]? = some k := by
  simp [withLink, onLink, hk]

theorem withLink_withLink (r : NodeRun) (id : SessionId) (w w' : Surroundings) (k k' : Link) :
    (r.withLink id w k).withLink id w' k' = r.withLink id w' k' := by
  simp only [withLink, onLink, List.modify_modify_eq]
  rfl

theorem onTask_withLink (r : NodeRun) (id : SessionId) (w : Surroundings) (k : Link)
    (change : SessionTask → SessionTask) :
    (r.withLink id w k).onTask id change =
      r.withLink id w { k with task := k.task.map change } := by
  simp only [withLink, onTask, onLink, List.modify_modify_eq]
  rfl

theorem onLink_of_some {k : Link} (hk : r.links[id]? = some k) (f : Link → Link) :
    r.onLink id f = r.withLink id r.surroundings (f k) := by
  have hlinks : r.links.modify id f = r.links.modify id fun _ => f k := by
    refine List.ext_getElem? fun j => ?_
    rw [List.getElem?_modify, List.getElem?_modify]
    by_cases hj : id = j
    · subst hj
      simp [hk]
    · simp [hj]
  rw [withLink, onLink, onLink, hlinks]

theorem withLink_self {k : Link} (hk : r.links[id]? = some k) :
    r.withLink id r.surroundings k = r := by
  have hsame : r.links.modify id (fun k => k) = r.links := List.modify_id id r.links
  rw [← onLink_of_some (f := fun k => k) hk, onLink, hsame]

/-- The peer, or what is between it and the node, changes a connection. -/
theorem leads_relink {k : Link} (hk : r.links[id]? = some k) (k' : Link) (hk' : k'.task = k.task)
    (n : Nat) :
    Leads r a (r.withLink id { r.surroundings with steps := n } k') a := by
  intro s h
  have hquestions : Questions r.surroundings.openQuestions (r.links.modify id fun _ => k') := by
    refine h.questions.update id (fun k₁ t hk₁ ht => ?_) h.questions.nodup (fun j hj _ => hj)
      fun hid => ?_
    · exact h.questions.attentive id k t hk (hk' ▸ ht)
    · obtain ⟨t, ht, hopen⟩ := h.questions.task hk hid
      exact ⟨k, t, hk, hk'.trans ht, hopen⟩
  have hlength : r.links.length ≤ (r.links.modify id fun _ => k').length :=
    Nat.le_of_eq (List.length_modify ..).symm
  -- A link of which the node was not told has no line, and then the station need not move.
  cases hl : s.lines.get? id with
  | none =>
    refine ⟨s, .refl s, ?_⟩
    have hls : ∀ j, s.lines.get? j =
        if id = j then (s.lines.get? j).map (fun l => l) else s.lines.get? j := by simp
    exact
      { h with
        lines := h.lines.update id hls
          (fun _ l _ hl' => by
            rw [hl] at hl'
            cases hl')
          fun _ _ _ => by
            have hpicture := h.lines.pictures id
            rw [hk, hl] at hpicture
            cases hpicture with
            | untold hnone => exact hk'.trans (hnone k rfl)
        waits := h.waits.mono hlength (List.Sublist.refl _) fun _ hj => hj
        questions := hquestions }
  | some l =>
    refine ⟨_, (Station.Step.changes k'.connection hl).meanwhile rfl rfl, ?_⟩
    have hls := get?_put_of_some (g := fun l => { l with connection := k'.connection }) hl
    exact
      { h with
        lines := h.lines.update id hls
          (fun k₁ _ hk₁ _ _ htask => by
            rw [hk] at hk₁
            cases hk₁
            exact ⟨rfl, rfl, htask.trans hk'.symm⟩)
          fun hnone => by
            rw [hl] at hnone
            cases hnone
        waits := h.waits.mono hlength (List.Sublist.refl _) (none_of_update hls)
        questions := hquestions }

/-- The user answers a question that is not on the list any more. -/
theorem leads_answer {k : Link} {t : SessionTask} (hk : r.links[id]? = some k)
    (ht : k.task = some t) (hasks : t.Asking) (hid : id ∉ r.surroundings.openQuestions)
    (allow : Bool) : Leads r a (r.onTask id fun t => { t with answer := some allow }) a := by
  intro s h
  obtain ⟨l, hl, hconnection, htask⟩ := h.lines.line hk ht
  have hasking : l.task.any Station.isAsking = true := by
    obtain ⟨x, hx, hdue⟩ := hasks
    simp [htask, Station.isAsking, hx, hdue]
  refine ⟨_, (Station.Step.answers allow hl hasking).meanwhile rfl rfl, ?_⟩
  have hls := get?_put_of_some
    (g := fun l => l.onTask fun t => { t with answer := some allow }) hl
  exact
    { h with
      lines := h.lines.update id hls
        (fun _ _ _ _ hconnection htask => ⟨rfl, hconnection, congrArg (Option.map _) htask⟩)
        fun _ _ hk => congrArg (Option.map _) hk
      waits := h.waits.mono (Nat.le_of_eq (List.length_modify ..).symm) (List.Sublist.refl _)
        (none_of_update hls)
      questions := h.questions.update id
        (fun k₁ t₁ hk₁ ht₁ => by
          rw [hk] at hk₁
          cases hk₁
          rw [ht] at ht₁
          cases ht₁
          exact (h.questions.attentive id k t hk ht).answered hasks (some allow))
        h.questions.nodup (fun j hj _ => hj) fun hmem => absurd hmem hid }

/-- What a step of a session makes of the questions. -/
theorem Questions.move {w : Surroundings} {k k' : Link} {t : SessionTask} {m : SessionTask.Moved}
    (h : Questions w.openQuestions ks) (hk : ks[id]? = some k) (ht : k.task = some t)
    (hm : SessionTask.Heeds t m) (hk' : k'.task = some m.task) :
    Questions (m.notes.foldl (Surroundings.hear id) w).openQuestions
      (ks.modify id fun _ => k') := by
  have hattentive : ∀ k₁ t₁, ks[id]? = some k₁ → k'.task = some t₁ → t₁.Attentive := by
    intro _ t₁ _ ht₁
    rw [hk'] at ht₁
    cases ht₁
    exact hm.attentive
  have hopen : id ∈ w.openQuestions → t.IsOpen := by
    intro hid
    obtain ⟨t₁, ht₁, hopen⟩ := h.task hk hid
    rw [ht] at ht₁
    cases ht₁
    exact hopen
  -- A session that asks had no question open. One that does not may only withdraw its own.
  by_cases hasks : .asks ∈ m.notes
  · obtain ⟨hnotes, hnow, hnot⟩ := hm.asks hasks
    have hid : id ∉ w.openQuestions := fun hid => hnot (hopen hid).1
    rw [hnotes]
    simp only [List.foldl_cons, List.foldl_nil, Surroundings.hear]
    split
    · refine h.update id hattentive ?_ (fun j hj hne => ?_) fun _ => ⟨k, m.task, hk, hk', hnow⟩
      · exact List.nodup_append.2 ⟨h.nodup, by simp, by
          intro j hj j' hj'
          rw [List.mem_singleton.1 hj']
          rintro rfl
          exact hid hj⟩
      · exact (List.mem_append.1 hj).resolve_right fun hj => hne (List.mem_singleton.1 hj)
    · exact h.update id hattentive h.nodup (fun j hj _ => hj) fun hmem => absurd hmem hid
  · obtain ⟨hsub, hkept⟩ := questions_of_not_asks hasks w
    refine h.update id hattentive (h.nodup.sublist hsub) (fun j hj _ => hsub.subset hj)
      fun hid => ?_
    exact ⟨k, m.task, hk, hk', (hm.keeps hasks (hopen (hsub.subset hid))).resolve_right (hkept hid)⟩

theorem Mirrors.heeds (h : Mirrors r a s) {part : Station.Part} {k : Link} {m : SessionTask.Moved}
    (hk : r.links[id]? = some k)
    (hm : ∀ l : Station.Line, l.connection = k.connection → l.task = k.task →
      l.move? r.config r.now r.surroundings.registry.trusts part = some m) :
    ∃ t, k.task = some t ∧ SessionTask.Heeds t m := by
  have hmoved := hm ⟨default, .accepted, k.connection, k.task⟩ rfl rfl
  obtain ⟨t, ht, -⟩ := Station.Line.move_spec hmoved
  exact ⟨t, ht, heeds_of_move ht (h.questions.attentive id k t hk ht) hmoved⟩

/-- A part of a session makes a step. -/
theorem leads_move {part : Station.Part} {k : Link} {m : SessionTask.Moved}
    (hk : r.links[id]? = some k)
    (hm : ∀ l : Station.Line, l.connection = k.connection → l.task = k.task →
      l.move? r.config r.now r.surroundings.registry.trusts part = some m) (k' : Link)
    (hconnection' : k'.connection = m.connection) (htask' : k'.task = some m.task) :
    Leads r { reports := r.surroundings.reports }
      (r.withLink id (m.notes.foldl (Surroundings.hear id) r.surroundings) k')
      { reports := (m.notes.foldl (Surroundings.hear id) r.surroundings).reports } := by
  intro s h
  obtain ⟨t, ht, hheeds⟩ := h.heeds hk hm
  obtain ⟨l, hl, hconnection, htask⟩ := h.lines.line hk ht
  have hmoved := hm l hconnection (htask.trans ht.symm)
  have hheard := hears id m.notes r.surroundings
  rw [← h.config, ← h.now, ← h.registry] at hmoved
  refine ⟨_, (Station.Step.moves hl hmoved).meanwhile rfl rfl, ?_⟩
  have hls := get?_put_of_some
    (g := fun l => { l with task := some m.task, connection := m.connection }) hl
  exact
    { config := h.config, node := h.node, stopped := h.stopped, dials := h.dials
      registry := by
        rw [show (s.moved id l m).registry = m.notes.foldl Station.learn s.registry from rfl,
          h.registry]
        exact hheard.registry.symm
      now := h.now.trans hheard.now.symm
      reports := rfl
      queue := fun hr => by
        rw [show (s.moved id l m).queue =
            s.queue ++ m.notes.filterMap (Station.report? id) from rfl,
          h.queue hr]
        exact hheard.reports.symm
      lines := h.lines.update id hls
        (fun _ _ _ _ _ _ => ⟨rfl, hconnection'.symm, htask'.symm⟩)
        fun hnone => by
          rw [hl] at hnone
          cases hnone
      waits := h.waits.mono (Nat.le_of_eq (List.length_modify ..).symm) (List.Sublist.refl _)
        (none_of_update hls)
      questions := h.questions.move hk ht hheeds htask' }

/-- The run takes up what a step of a session led to: a user who answers at once does so now. -/
theorem leads_accept (part : Station.Part) {k : Link} {m : SessionTask.Moved}
    (hk : r.links[id]? = some k)
    (hm : ∀ l : Station.Line, l.connection = k.connection → l.task = k.task →
      l.move? r.config r.now r.surroundings.registry.trusts part = some m) :
    Leads r { reports := r.surroundings.reports }
      (r.withLink id (r.surroundings.accept id k m).1 (r.surroundings.accept id k m).2)
      { reports := (r.surroundings.accept id k m).1.reports } := by
  have hmove := leads_move hk hm { k with connection := m.connection, task := some m.task } rfl rfl
  simp only [Surroundings.accept, Surroundings.answerNow]
  split
  · rename_i hany
    intro s h
    obtain ⟨t, ht, hheeds⟩ := h.heeds hk hm
    have hasks : .asks ∈ m.notes := by
      obtain ⟨n, hn, hmatches⟩ := List.any_eq_true.1 hany
      cases n with
      | asks => exact hn
      | report x | withdraws | remembers f => cases hmatches
    obtain ⟨hnotes, ⟨hasking, hnone⟩, hnot⟩ := hheeds.asks hasks
    cases hanswer : r.surroundings.instantAnswer with
    | none =>
      rw [← hnone]
      exact hmove s h
    | some allow =>
      have hlisted : id ∉ (m.notes.foldl (Surroundings.hear id) r.surroundings).openQuestions := by
        intro hid
        have hauto : r.surroundings.approver ≠ .manual := by
          intro hmanual
          simp [Surroundings.instantAnswer, hmanual] at hanswer
        have hmem : id ∈ r.surroundings.openQuestions := by
          simpa [hnotes, Surroundings.hear, Surroundings.logQuestion, hauto] using hid
        obtain ⟨t₁, ht₁, hopen⟩ := h.questions.task hk hmem
        rw [ht] at ht₁
        cases ht₁
        exact hnot hopen.1
      have hanswered := hmove.trans fun _ =>
        leads_answer (links_withLink hk _ _) rfl hasking hlisted allow
      rw [onTask_withLink] at hanswered
      exact hanswered s h
  · exact hmove

theorem task_of_peerWrites {k k' : Link} (h : k.peerWrites = some k') : k'.task = k.task := by
  unfold Link.peerWrites at h
  simp only at h
  split at h
  · cases h
  · split at h
    · split at h <;> cases h
      rfl
    · split at h
      · cases h
        rfl
      · split at h <;> cases h
        rfl

theorem task_of_peerReads {k k' : Link} {now : Time} (h : k.peerReads now = some k') :
    k'.task = k.task := by
  unfold Link.peerReads at h
  simp only at h
  split at h
  · cases h
  · split at h
    · split at h <;> cases h
      rfl
    · cases h
      rfl

theorem leads_partStep {k k' : Link} (hk : r.links[id]? = some k) {part : Surroundings.Part}
    {w' : Surroundings} (h : r.surroundings.partStep id r.config.codec k part = some (w', k')) :
    Leads r { reports := r.surroundings.reports } (r.withLink id w' k')
      { reports := w'.reports } := by
  -- The parts of the session move as those of a station do; its peer only changes the connection.
  have moves : ∀ (part : Station.Part) {step : SessionTask → Option SessionTask.Moved},
      (∀ l : Station.Line, l.connection = k.connection → l.task = k.task →
        l.move? r.config r.now r.surroundings.registry.trusts part = k.task.bind step) →
      (k.task.bind fun t => (step t).map (r.surroundings.accept id k)) = some (w', k') →
      Leads r { reports := r.surroundings.reports } (r.withLink id w' k')
        { reports := w'.reports } := by
    intro part step hmove hstep
    obtain ⟨t, ht, hstep⟩ := Option.bind_eq_some_iff.1 hstep
    obtain ⟨m, hm, heq⟩ := Option.map_eq_some_iff.1 hstep
    have haccept := leads_accept part hk fun l hconnection htask => by
      rw [hmove l hconnection htask, ht, Option.bind_some, hm]
    rwa [heq] at haccept
  cases part with
  | peerWriter =>
    obtain ⟨k₁, hwrites, heq⟩ := Option.map_eq_some_iff.1 h
    cases heq
    exact leads_relink hk _ (task_of_peerWrites hwrites) r.surroundings.steps
  | peerReader =>
    obtain ⟨k₁, hreads, heq⟩ := Option.map_eq_some_iff.1 h
    cases heq
    exact leads_relink hk _ (task_of_peerReads hreads) r.surroundings.steps
  | reader =>
    refine moves .reader (fun l hconnection htask => ?_) h
    rw [Station.Line.move?, hconnection, htask]
  | writer =>
    refine moves .writer (fun l hconnection htask => ?_) h
    rw [Station.Line.move?, hconnection, htask]
  | close =>
    refine moves .close (fun l hconnection htask => ?_) h
    rw [Station.Line.move?, hconnection, htask]
    rfl
  | session =>
    obtain ⟨t, ht, hstep⟩ := Option.bind_eq_some_iff.1 h
    obtain ⟨m, hm, heq⟩ := Option.map_eq_some_iff.1 hstep
    have hcounted := leads_relink (a := { reports := r.surroundings.reports }) hk
      { k with lastStep := r.surroundings.steps + 1 } rfl (r.surroundings.steps + 1)
    -- In a run the session always takes the first of what is ready.
    have haccept := leads_accept (.session 0) (m := m)
      (links_withLink hk { r.surroundings with steps := r.surroundings.steps + 1 }
        { k with lastStep := r.surroundings.steps + 1 }) fun l hconnection htask => by
      rw [Station.Line.move?, hconnection, htask]
      show (k.task.bind fun t => t.driveStep _ _ _ k.connection) = some m
      rw [ht]
      exact hm
    rw [withLink_withLink] at haccept
    have hboth := hcounted.trans fun _ => haccept
    rw [← show _ = w' from congrArg Prod.fst heq, ← show _ = k' from congrArg Prod.snd heq]
    exact hboth

/-! ## Turns -/

theorem leads_stay {k : Link} (hk : r.links[id]? = some k) :
    Leads r a (r.withLink id r.surroundings k) a := by
  rw [withLink_self hk]
  exact .of_same fun s h => h

theorem leads_runPart (part : Surroundings.Part) (fuel : Nat) {r : NodeRun} {id : SessionId}
    {k : Link} (hk : r.links[id]? = some k) (again : Bool) {x : Bool × Surroundings × Link}
    (hx : Surroundings.runPart id r.config.codec part fuel again r.surroundings k = x) :
    Leads r { reports := r.surroundings.reports } (r.withLink id x.2.1 x.2.2)
      { reports := x.2.1.reports } := by
  induction fuel generalizing r k again with
  | zero =>
    cases hx
    exact leads_stay hk
  | succ fuel ih =>
    rw [Surroundings.runPart] at hx
    split at hx
    · cases hx
      exact leads_stay hk
    · rename_i w' k' hstep
      have hrest := ih (links_withLink hk w' k') true hx
      rw [withLink_withLink] at hrest
      exact (leads_partStep hk hstep).trans fun _ => hrest

/-- The surroundings and the link go from part to part, and with them the run that has both. -/
theorem leads_parts {c : Codec}
    {f : Bool × Surroundings × Link → Surroundings.Part → Bool × Surroundings × Link}
    (hf : ∀ (r : NodeRun) y part, r.config.codec = c → r.surroundings = y.2.1 →
      r.links[id]? = some y.2.2 →
      Leads r { reports := y.2.1.reports } (r.withLink id (f y part).2.1 (f y part).2.2)
        { reports := (f y part).2.1.reports })
    (parts : List Surroundings.Part) {r : NodeRun} {y : Bool × Surroundings × Link}
    (hc : r.config.codec = c) (hw : r.surroundings = y.2.1) (hk : r.links[id]? = some y.2.2) :
    Leads r { reports := y.2.1.reports }
      (r.withLink id (parts.foldl f y).2.1 (parts.foldl f y).2.2)
      { reports := (parts.foldl f y).2.1.reports } := by
  induction parts generalizing r y with
  | nil =>
    rw [List.foldl_nil, ← hw]
    exact leads_stay hk
  | cons part parts ih =>
    have hrest := ih (r := r.withLink id (f y part).2.1 (f y part).2.2) (y := f y part) hc rfl
      (links_withLink hk _ _)
    rw [withLink_withLink] at hrest
    exact (hf r y part hc hw hk).trans fun _ => hrest

theorem leads_round {k : Link} (hk : r.links[id]? = some k) :
    Leads r { reports := r.surroundings.reports }
      (r.withLink id (r.surroundings.round id r.config.codec k).2.1
        (r.surroundings.round id r.config.codec k).2.2)
      { reports := (r.surroundings.round id r.config.codec k).2.1.reports } := by
  unfold Surroundings.round
  refine leads_parts (r := r) (y := (false, r.surroundings, k)) (fun r y part hc hw hk => ?_)
    Surroundings.parts rfl rfl hk
  obtain ⟨moved, w, l⟩ := y
  cases hw
  have hpart := leads_runPart part l.pending hk false rfl
  rw [hc] at hpart
  exact hpart

theorem leads_turnLinks (r : NodeRun) : Leads r { reports := r.surroundings.reports } r.turnLinks.2
    { reports := r.turnLinks.2.surroundings.reports } := by
  have fold : ∀ {f : Bool × NodeRun → SessionId → Bool × NodeRun},
      (∀ x id, Leads x.2 { reports := x.2.surroundings.reports } (f x id).2
        { reports := (f x id).2.surroundings.reports }) →
      ∀ (ids : List SessionId) (x : Bool × NodeRun),
        Leads x.2 { reports := x.2.surroundings.reports } (ids.foldl f x).2
          { reports := (ids.foldl f x).2.surroundings.reports } := by
    intro f hf ids
    induction ids with
    | nil => exact fun x => .of_same fun s h => h
    | cons id ids ih => exact fun x => (hf x id).trans fun _ => ih (f x id)
  refine fold (fun x id => ?_) r.order (false, r)
  obtain ⟨moved, r⟩ := x
  simp only
  split
  · exact .of_same fun s h => h
  · rename_i k hk
    have hround := leads_round hk
    revert hround
    generalize r.surroundings.round id r.config.codec k = y
    exact fun hround => hround

/-- Nothing was reported and not heard before the links take turns. -/
theorem Leads.of_reports (h : Leads r { reports := r.surroundings.reports } r' a') :
    Leads r {} r' a' := by
  intro s hs
  have hquiet : r.surroundings.reports = [] := hs.reports
  rw [hquiet] at h
  exact h s hs

theorem leads_turn (r : NodeRun) : Leads r {} r.turn.2 {} := by
  have hdoor : Leads r {} (if r.stopped then r else r.acceptAll.stepDials.discover) {} := by
    split
    · exact .of_same fun s h => h
    · rename_i hr
      rw [Bool.not_eq_true] at hr
      refine (leads_acceptAll hr).trans fun hsame => ?_
      replace hr := hsame.trans hr
      refine (leads_stepDials hr).trans fun hsame => ?_
      exact leads_discover (hsame.trans hr)
  exact hdoor.trans fun _ => (leads_turnLinks _).of_reports.trans fun _ => leads_hearReports

theorem leads_turns (fuel : Nat) (r : NodeRun) : Leads r {} (turns fuel r) {} := by
  induction fuel generalizing r with
  | zero => exact .of_same fun s h => h
  | succ fuel ih =>
    have hturn := leads_turn r
    rw [turns]
    split
    · rename_i heq
      rwa [heq] at hturn
    · rename_i heq
      rw [heq] at hturn
      exact hturn.trans fun _ => ih _

theorem leads_settle (r : NodeRun) : Leads r {} r.settle {} := leads_turns r.pending r

end SharedClipboard.Simulation.NodeRun
