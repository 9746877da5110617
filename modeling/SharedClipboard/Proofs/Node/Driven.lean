import SharedClipboard.Proofs.Node.Turn

/-!
# Whatever a driven node does, a station can do

**Theorem (`mirrored_of_driven`).** However a node is driven (`Driven`), there is a run of a station
that starts with the same configuration, identity and registry and ends where the run is: with the
same node and registry at the same moment, and with the same sessions on the same connections. So
what holds in every run of a station holds of every driven node.

Time is the one thing that `Leads` leaves alone. A run lets it pass in steps, from one moment at
which something is due to the next (`Mirrors.advanceWhile`).
-/

namespace SharedClipboard

namespace Station

/-- Things happened to the station, and the node was not told to stop. -/
def Later (s s' : Station) : Prop := ∃ hs, Run s hs s' ∧ s'.stopped = s.stopped

theorem Meanwhile.later {s s' : Station} (h : s.Meanwhile s') : s.Later s' := by
  obtain ⟨hs, hrun, -, hstopped⟩ := h
  exact ⟨hs, hrun, hstopped⟩

theorem Later.refl (s : Station) : s.Later s := ⟨[], .start, rfl⟩

theorem Later.trans {s s' s'' : Station} (h : s.Later s') (h' : s'.Later s'') : s.Later s'' := by
  obtain ⟨hs, hrun, hstopped⟩ := h
  obtain ⟨hs', hrun', hstopped'⟩ := h'
  exact ⟨hs ++ hs', hrun.trans hrun', hstopped'.trans hstopped⟩

end Station

namespace Simulation.NodeRun

variable {r : NodeRun} {s : Station}

/-! ## Time passes -/

theorem Mirrors.settle_now (h : Mirrors r {} s) : r.settle.now = r.now := by
  obtain ⟨s', ⟨-, -, hnow, -⟩, hs'⟩ := leads_settle r s h
  rw [← hs'.now, hnow, h.now]

theorem Mirrors.atTime (h : Mirrors r {} s) (moment : Time) :
    Mirrors (r.atTime moment) {} { s with now := moment } :=
  { h with now := rfl }

theorem Mirrors.later_atTime (h : Mirrors r {} s) {moment : Time} (hm : r.now ≤ moment) :
    s.Later { s with now := moment } := by
  have hnow : s.now + (moment - r.now) = moment := by
    rw [h.now]
    exact Nat.add_sub_cancel' hm
  have hstep := Station.Step.passes (s := s) (moment - r.now)
  rw [hnow] at hstep
  exact ⟨_, .step .start hstep, rfl⟩

theorem Mirrors.advanceWhile (h : Mirrors r {} s) (waits : NodeRun → Bool) {moment : Time}
    (hm : r.now ≤ moment) :
    ∃ s', s.Later s' ∧ Mirrors (r.advanceWhile waits moment) {} s' := by
  have directly : ∀ {r : NodeRun} {s : Station}, Mirrors r {} s → r.now ≤ moment →
      ∃ s', s.Later s' ∧ Mirrors (r.atTime moment) {} s' :=
    fun h hm => ⟨_, h.later_atTime hm, h.atTime moment⟩
  fun_induction NodeRun.advanceWhile waits r moment generalizing s with
  | case1 r _ => exact ⟨s, .refl s, h⟩
  | case2 | case4 | case5 => exact directly h hm
  | case3 r _ due _ _ next hnext =>
    rename_i ih
    -- Settling takes no time, so the moment at which something is due has not passed yet.
    have hsettled : (r.atTime due).settle.now = due := (h.atTime due).settle_now
    have hdue : r.now ≤ due := Nat.le_of_lt (hsettled ▸ hnext.1)
    obtain ⟨s₁, hmean, hs₁⟩ := leads_settle _ _ (h.atTime due)
    obtain ⟨s₂, hlater, hs₂⟩ := ih hs₁ hnext.2
    exact ⟨s₂, ((h.later_atTime hdue).trans hmean.later).trans hlater, hs₂⟩

/-! ## What is done to the node -/

theorem task_of_tell (k : Link) (x : PeerStep) : (k.tell x).1.task = k.task := by
  have sent : ∀ b, (k.sendBytes b).task = k.task := by
    intro b
    unfold Link.sendBytes
    split <;> rfl
  cases x with
  | send p | sendRaw b => exact sent _
  | respond answer =>
    simp only [Link.tell]
    split
    · rfl
    · exact sent _
  | pauseReading | resumeReading | halfClose | hangUp | failReads e | failWrites e => rfl

theorem leads_tellPeer (r : NodeRun) (id : SessionId) (x : PeerStep) :
    Leads r {} (r.tellPeer id x).1 {} := by
  unfold tellPeer
  split
  · exact .of_same fun s h => h
  · rename_i k hk
    exact leads_relink hk _ (task_of_tell k x) r.surroundings.steps

/-- The oldest question leaves the list and is answered. -/
theorem leads_decide {allow : Bool} {w : Surroundings} {ks : List Link}
    (hdecide : r.surroundings.decide allow r.links = some (w, ks)) :
    Leads r {} { r with surroundings := w, links := ks } {} := by
  unfold Surroundings.decide at hdecide
  split at hdecide
  · cases hdecide
  · rename_i id rest hopen
    cases hdecide
    intro s h
    have hquestions := h.questions
    rw [hopen] at hquestions
    obtain ⟨k, t, hk, ht, hasking, -⟩ := hquestions.isOpen id List.mem_cons_self
    obtain ⟨hid, hnodup⟩ := List.nodup_cons.1 hquestions.nodup
    -- The question is taken off the list first, and then the session gets its answer.
    have hunlisted : Mirrors
        { r with surroundings := { r.surroundings with openQuestions := rest } } {} s :=
      { h with
        questions :=
          { attentive := hquestions.attentive
            nodup := hnodup
            isOpen := fun j hj => hquestions.isOpen j (List.mem_cons_of_mem _ hj) } }
    exact leads_answer (r := { r with
      surroundings := { r.surroundings with openQuestions := rest } }) hk ht hasking hid allow s
        hunlisted

/-- A connection that comes in is the last one that waits. -/
theorem Mirrors.waits_opened (h : Mirrors r {} s) (w : Wire) (capacity : Option Nat) :
    Waits (r.openLink w capacity).2.links.length
      ([] ++ ((r.openLink w capacity).2.backlog ++ [.connection r.links.length])) s.lines := by
  have hlength : (r.openLink w capacity).2.links.length = r.links.length + 1 :=
    List.length_append
  have hnew : ∀ id ∈ r.backlog.filterMap Waiting.connection?, id ≠ r.links.length := by
    rintro id hid rfl
    obtain ⟨x, hx, hconnection⟩ := List.mem_filterMap.1 hid
    cases x with
    | connection j =>
      cases hconnection
      exact Nat.lt_irrefl _ (h.waits.untold _ hx).1
    | failure => cases hconnection
  rw [List.nil_append, hlength]
  refine ⟨?_, fun id hid => ?_⟩
  · rw [List.filterMap_append]
    refine List.nodup_append.2 ⟨h.waits.nodup, List.nodup_singleton _, fun id hid j hj => ?_⟩
    rw [List.mem_singleton.1 hj]
    exact hnew id hid
  · obtain hid | hid := List.mem_append.1 hid
    · exact (h.waits.untold id hid).imp_left fun hlt => Nat.lt_succ_of_lt hlt
    · cases List.mem_singleton.1 hid
      exact ⟨Nat.lt_succ_self _, h.untold_of_le (Nat.le_refl _)⟩

/-- A connection that comes in waits at the listener, or is dropped. -/
theorem leads_inbound (r : NodeRun) (w : Wire) (capacity : Option Nat) :
    Leads r {} (r.inbound w capacity).1 {} := by
  simp only [inbound]
  split
  · obtain ⟨k, hk⟩ : ∃ k, (r.openLink w capacity).2.links[r.links.length]? = some k :=
      ⟨_, List.getElem?_concat_length⟩
    have hopens : Leads r {} (r.openLink w capacity).2 {} :=
      .of_same fun s h => h.openLink w capacity
    have hdrops := leads_relink (a := {}) hk
      { k with connection := SessionTask.dropped k.connection } rfl r.surroundings.steps
    rw [show (r.openLink w capacity).1 = r.links.length from rfl, onLink_of_some hk]
    exact hopens.trans fun _ => hdrops
  · exact .of_same fun s h =>
      { h.openLink w capacity with waits := h.waits_opened w capacity }

/-- A failure of the listener is no connection that waits. -/
theorem leads_acceptError (r : NodeRun) :
    Leads r {} { r with backlog := r.backlog ++ [.failure] } {} := by
  refine .of_same fun s h => { h with waits := ⟨?_, fun id hid => h.waits.untold id ?_⟩ }
  · rw [List.nil_append, List.filterMap_append]
    exact (List.append_nil _).symm ▸ h.waits.nodup
  · simpa using hid

theorem leads_publish (hr : r.stopped = false) {mime : String} {data : Bytes}
    (hok : r.config.codec.checkContent mime data = .ok ()) :
    Leads r {} (r.tell (.publish mime data)) {} :=
  leads_told hr rfl (by simp) (by simp) fun s h => .publishes (h.config ▸ hok)

theorem Mirrors.connect (h : Mirrors r {} s) (hr : r.stopped = false) (d : Device) :
    ∃ s', s.Later s' ∧ Mirrors (r.connect d).1 {} s' := by
  simp only [NodeRun.connect]
  generalize (r.routes.get? d.socketAddress).getD .nowhere = route
  obtain ⟨s₁, hlater, hs₁⟩ := h.advanceWhile (fun _ => true) (Nat.le_add_right r.now route.delay)
  have hrunning : (r.advanceTo (r.now + route.delay)).stopped = false := by
    obtain ⟨-, -, hsame⟩ := hlater
    rw [show r.advanceTo _ = r.advanceWhile _ _ from rfl, ← hs₁.stopped, hsame, h.stopped, hr]
  obtain ⟨log, ⟨e, heq⟩ | ⟨w, capacity, heq⟩⟩ :=
    (r.advanceTo (r.now + route.delay)).finishDial_spec d r.now route
  · rw [heq]
    exact ⟨s₁, hlater, { hs₁ with }⟩
  · rw [heq]
    have hs₁' : Mirrors { r.advanceTo (r.now + route.delay) with dialLog := log } {} s₁ :=
      { hs₁ with }
    have hdialed : ∀ d' ∈ Station.Opening.dialed? (.asked d), d' ∈ s₁.dials :=
      fun d' hd' => by cases hd'
    obtain ⟨s₂, hmean, hs₂⟩ := hs₁'.opens (w := w) hrunning capacity hdialed (hs₁.dials hrunning)
    exact ⟨s₂, hlater.trans hmean.later, hs₂⟩

/-- The node is told to stop, and handles nothing after that. -/
theorem Mirrors.stop (h : Mirrors r {} s) (hr : r.stopped = false) :
    ∃ hs s', Station.Run s hs s' ∧ Mirrors r.stop {} s' := by
  have stops : ∀ segment discovery, ∃ hs s', Station.Run s hs s' ∧
      Mirrors
        { NodeRun.tell { r with dials := [], backlog := [], segment, discovery } (.shutdown []) with
          stopped := true } {} s' := by
    intro segment discovery
    have htold : Mirrors { r with dials := [], backlog := [], segment, discovery }
        { commands := [.shutdown []], dials := r.dials } (s.tell (.shutdown [])) :=
      { h with
        queue := fun hr => congrArg (· ++ [Node.Command.shutdown []]) (h.queue hr)
        dials := fun hr => by simpa [Station.tell] using h.dials hr
        waits := h.waits.mono (Nat.le_refl _) (List.nil_sublist _) fun _ hj => hj }
    obtain ⟨nonce, rest, hrunning, hqueue, hs'⟩ :=
      Mirrors.command (a := ⟨[], [], [], r.dials⟩) htold hr fun id direction hmem =>
        absurd hmem (not_start_of_handle (by simp) (by simp) id direction)
    refine ⟨_, (s.tell (.shutdown [])).handle nonce (.shutdown []) rest,
      .step (.step .start (.stops [])) (.handles nonce hrunning hqueue), ?_⟩
    have hno : ∀ {p : Prop}, true = false → p := fun h => by cases h
    exact { hs' with stopped := rfl, queue := fun hr => hno hr, dials := fun hr => hno hr }
  exact stops _ _

theorem leads_endDiscovery (r : NodeRun) : Leads r {} r.endDiscovery {} := by
  refine .of_same fun s h => ?_
  have same : ∀ segment calls, Mirrors { r with segment, calls } {} s := fun _ _ => { h with }
  unfold endDiscovery
  split
  · exact h
  · simp only
    split <;> split
    all_goals
      try split
      all_goals exact same _ _

/-- The node stops, and what its sessions still do is waited for. -/
theorem Mirrors.shutdown (h : Mirrors r {} s) (hr : r.stopped = false) :
    ∃ hs s', Station.Run s hs s' ∧ Mirrors r.shutdown {} s' := by
  obtain ⟨s₁, ⟨hs₁, hrun₁, -, hsame⟩, hm₁⟩ := leads_endDiscovery r s h
  have hrunning : r.endDiscovery.stopped = false := by
    rw [← hm₁.stopped, hsame, h.stopped, hr]
  obtain ⟨hs₂, s₂, hrun₂, hm₂⟩ := hm₁.stop hrunning
  obtain ⟨s₃, ⟨hs₃, hrun₃, -⟩, hm₃⟩ := leads_settle _ s₂ hm₂
  obtain ⟨s₄, ⟨hs₄, hrun₄, -⟩, hm₄⟩ := hm₃.advanceWhile hasSession
    (Nat.le_add_right r.endDiscovery.stop.settle.now SessionTask.drainTime)
  exact ⟨_, s₄, ((hrun₁.trans hrun₂).trans hrun₃).trans hrun₄, hm₄⟩

theorem Mirrors.carryOut (h : Mirrors r {} s) (x : Step) :
    ∃ hs s', Station.Run s hs s' ∧ Mirrors (r.carryOut x).1 {} s' := by
  have same : ∀ {r' : NodeRun}, Mirrors r' {} s → ∃ hs s', Station.Run s hs s' ∧ Mirrors r' {} s' :=
    fun h' => ⟨[], s, .start, h'⟩
  have leads : ∀ {r' : NodeRun}, Leads r {} r' {} →
      ∃ hs s', Station.Run s hs s' ∧ Mirrors r' {} s' := by
    intro r' hleads
    obtain ⟨s', ⟨hs, hrun, -⟩, hs'⟩ := hleads s h
    exact ⟨hs, s', hrun, hs'⟩
  have later : ∀ {r' : NodeRun}, (∃ s', s.Later s' ∧ Mirrors r' {} s') →
      ∃ hs s', Station.Run s hs s' ∧ Mirrors r' {} s' := by
    rintro r' ⟨s', ⟨hs, hrun, -⟩, hs'⟩
    exact ⟨hs, s', hrun, hs'⟩
  -- One case for each request; a node that has stopped refuses most of them and stays as it is.
  cases x with
  | peer id x => exact leads (leads_tellPeer r id x)
  | burst xs =>
    exact leads (Leads.foldl (A := fun _ => {}) (b := r.stopped)
      (fun r x _ _ => leads_tellPeer r x.1 x.2) rfl xs)
  | advance ms => exact later (h.advanceWhile _ (Nat.le_add_right r.now ms))
  | decide allow =>
    simp only [NodeRun.carryOut]
    split
    · exact same h
    · rename_i hdecide
      exact leads (leads_decide hdecide)
  | route _ _ | inject _ | withdraw _ => exact same { h with }
  | inbound w capacity => exact leads (leads_inbound r w capacity)
  | acceptError => exact leads (leads_acceptError r)
  | connect d =>
    simp only [NodeRun.carryOut]
    split
    · exact same h
    · rename_i hr
      exact later (h.connect (by simpa using hr) d)
  | publish mime data =>
    simp only [NodeRun.carryOut]
    split
    · exact same h
    · rename_i hr
      split
      · exact same h
      · rename_i hok
        exact leads (leads_publish (by simpa using hr) hok)
  | snapshot | history =>
    simp only [NodeRun.carryOut]
    split <;> exact same h
  | shutdown =>
    simp only [NodeRun.carryOut]
    split
    · exact same h
    · rename_i hr
      exact h.shutdown (by simpa using hr)
  | drop =>
    simp only [NodeRun.carryOut]
    split
    · exact same h
    · rename_i hr
      exact h.stop (by simpa using hr)

theorem Mirrors.step (h : Mirrors r {} s) (x : Step) :
    ∃ hs s', Station.Run s hs s' ∧ Mirrors (r.step x).1 {} s' := by
  obtain ⟨hs₁, s₁, hrun₁, hm₁⟩ := h.carryOut x
  obtain ⟨s₂, ⟨hs₂, hrun₂, -⟩, hm₂⟩ := leads_settle _ s₁ hm₁
  exact ⟨_, s₂, hrun₁.trans hrun₂, hm₂⟩

/-- What was logged is nothing to the station. -/
theorem Mirrors.clearLogs (h : Mirrors r {} s) : Mirrors r.clearLogs {} s := by
  have hlength : r.clearLogs.links.length = r.links.length := List.length_map _
  have hlinks : ∀ id : SessionId, r.clearLogs.links[id]? =
      r.links[id]?.map fun l => { l with peer := { l.peer with log := [] } } :=
    fun id => List.getElem?_map
  exact
    { h with
      lines :=
        { length := h.lines.length.trans hlength.symm
          pictures := fun id => by
            have hpicture := h.lines.pictures id
            rw [hlinks]
            generalize r.links[id]? = k? at hpicture
            generalize s.lines.get? id = l? at hpicture
            cases hpicture with
            | untold hnone =>
              refine .untold fun k hk => ?_
              obtain ⟨k₁, hk₁, rfl⟩ := Option.map_eq_some_iff.1 hk
              exact hnone k₁ hk₁
            | told hwire hconnection htask => exact .told hwire hconnection htask }
      waits := h.waits.mono (Nat.le_of_eq hlength.symm) (List.Sublist.refl _) fun _ hj => hj
      questions :=
        { attentive := fun id k t hk ht => by
            rw [hlinks] at hk
            obtain ⟨k₁, hk₁, rfl⟩ := Option.map_eq_some_iff.1 hk
            exact h.questions.attentive id k₁ t hk₁ ht
          nodup := h.questions.nodup
          isOpen := fun id hid => by
            obtain ⟨k, t, hk, ht, hopen⟩ := h.questions.isOpen id hid
            refine ⟨{ k with peer := { k.peer with log := [] } }, t, ?_, ht, hopen⟩
            rw [hlinks, hk]
            rfl } }

/-! ## From the start -/

/-- A node that was started and has been driven since. -/
inductive Driven (setup : Setup) : NodeRun → Prop where
  | start {degraded : Option DiscoveryError} {r : NodeRun} :
      NodeRun.start setup = .ok (degraded, r) → Driven setup r
  | step {r : NodeRun} (x : Step) : Driven setup r → Driven setup (r.step x).1
  | clearLogs {r : NodeRun} : Driven setup r → Driven setup r.clearLogs

/-- Discovery is none of the station's business before it reports something. -/
theorem Mirrors.startDiscovery (h : Mirrors r {} s) : Mirrors r.startDiscovery.2 {} s := by
  unfold NodeRun.startDiscovery
  split
  · exact h
  · exact { h with }

theorem mirrored_of_start {setup : Setup} {degraded : Option DiscoveryError}
    (hstart : NodeRun.start setup = .ok (degraded, r)) :
    ∃ port first hs s, setup.bound = .ok port ∧
      Station.start setup.config setup.identity port [] setup.registry = .ok first ∧
      Station.Run first hs s ∧ Mirrors r {} s := by
  unfold NodeRun.start Node.start at hstart
  cases hvalid : setup.config.validate with
  | error e =>
    rw [hvalid] at hstart
    cases hstart
  | ok u =>
    cases hbound : setup.bound with
    | error e =>
      rw [hvalid, hbound] at hstart
      cases hstart
    | ok port =>
      rw [hvalid, hbound] at hstart
      cases hstart
      let first : Station :=
        { config := setup.config, node := Node.fresh setup.config setup.identity port
          registry := setup.registry }
      have hfirst :
          Station.start setup.config setup.identity port [] setup.registry = .ok first := by
        unfold Station.start Node.start
        rw [hvalid]
        rfl
      let begun : NodeRun :=
        { config := setup.config, pipeCapacity := setup.pipeCapacity, nonce := setup.nonce
          node := Node.fresh setup.config setup.identity port
          surroundings := { registry := setup.registry, approver := setup.approver }
          routes := setup.routes.foldl (fun t x => t.put x.1 x.2) .empty
          segment := setup.segment, discovery := setup.discovery }
      have hbegun : Mirrors begun {} first :=
        { config := rfl, node := rfl, registry := rfl, now := rfl, stopped := rfl, reports := rfl
          queue := fun _ => rfl
          dials := fun _ => List.Perm.refl _
          lines := ⟨rfl, fun id => .untold fun k (hk : none = some k) => nomatch hk⟩
          waits := ⟨List.nodup_nil, fun id hid => nomatch hid⟩
          questions := ⟨fun id k t (hk : none = some k) => (nomatch hk), List.nodup_nil,
            fun id hid => nomatch hid⟩ }
      obtain ⟨s, ⟨hs, hrun, -⟩, hm⟩ := leads_settle _ first hbegun.startDiscovery
      exact ⟨port, first, hs, s, rfl, hfirst, hrun, hm⟩

/-- **Driven nodes are stations.** However a node is driven, it ends where some run of a station
ends that starts with the same configuration, identity and registry. -/
theorem mirrored_of_driven {setup : Setup} (h : Driven setup r) :
    ∃ port first hs s, setup.bound = .ok port ∧
      Station.start setup.config setup.identity port [] setup.registry = .ok first ∧
      Station.Run first hs s ∧ Mirrors r {} s := by
  induction h with
  | start hstart => exact mirrored_of_start hstart
  | step x _ ih =>
    obtain ⟨port, first, hs, s, hbound, hfirst, hrun, hm⟩ := ih
    obtain ⟨hs', s', hrun', hm'⟩ := hm.step x
    exact ⟨port, first, hs ++ hs', s', hbound, hfirst, hrun.trans hrun', hm'⟩
  | clearLogs _ ih =>
    obtain ⟨port, first, hs, s, hbound, hfirst, hrun, hm⟩ := ih
    exact ⟨port, first, hs, s, hbound, hfirst, hrun, hm.clearLogs⟩

end Simulation.NodeRun

end SharedClipboard
