import SharedClipboard.Proofs.Node.Consent

/-!
# Dials and their marks

A node dials a device that discovery reports, and keeps a mark of it (`Node.dialing`) so that it
does not dial it twice. A dial is under way (`Station.dialsUnderWay`) from the moment the node asks
for it until the node has handled what came of it.

**Theorem (`dials_bounded`).** In every run of a station, at most one dial of a device is under way,
and one more for each time that the node took up a connection that the user had asked for while a
dial of the same device was under way.

**Theorem (`marked_is_being_dialed`).** In every run of a station that has not stopped, a dial is
under way of every device that has a mark. So no mark keeps a device from being dialed again.

The mark stands for one dial under way, and every outcome of a dial takes it away; but so does the
connection that the user asked for, and then the dial that is still under way has no mark. The
first invariant is that no more dials are without a mark than there were such connections. When the
session on that connection ends and discovery reports the device again, the node dials it although
it is being dialed (`named_device_is_dialed_twice`). Then two dials share a mark, and the one that
comes to its end first takes it away. So no mark outlives the dials of its device, which is the
second invariant.
-/

namespace SharedClipboard

/-! ## What a command does to the dials of a node -/

namespace Node

variable {n : Node} {room : SessionId → Room} {c : Command}

/-- What a command does to the marks of a node, and the dials that it asks for. -/
inductive Redials (n : Node) (c : Command) (t : Turn) : Prop where
  | keeps : t.node.dialing = n.dialing → t.effects.filterMap Station.dial? = [] → Redials n c t
  | begins (d : Device) : d.identity ∉ n.dialing → t.node.dialing = d.identity :: n.dialing →
      t.effects.filterMap Station.dial? = [d] → Redials n c t
  | ends (d : Device) : (∃ a, c = .connected a d) ∨ (∃ e, c = .dialFailed d e) →
      t.node.dialing = n.dialing.filter (· ≠ d.identity) →
      t.effects.filterMap Station.dial? = [] → Redials n c t

theorem filterMap_dial?_group (effects : List Group.Effect) :
    (effects.map Effect.group).filterMap Station.dial? = [] := by
  simp [Station.dial?, List.filterMap_map, Function.comp_def]

theorem redials_take {α : Type} (n : Node) (c : Command) (o : Group.Outcome α) :
    Redials n c (n.take o) :=
  .keeps rfl (filterMap_dial?_group o.effects)

theorem redials_takeAndDial (n : Node) (c : Command) (o : Group.Outcome (Option Device))
    (delay : Nat) (worth : Group → Device → Option Device) :
    Redials n c (n.takeAndDial o delay worth) := by
  unfold takeAndDial
  simp only
  split
  · exact redials_take n c o
  · rename_i d _
    -- A device is marked and dialed by the same test, so neither happens without the other.
    unfold maybeDial
    split
    · rename_i hwould
      refine .begins d ?_ rfl ?_
      · simp only [wouldDial, Bool.and_eq_true] at hwould
        simpa [take] using hwould.2
      · rw [List.filterMap_append]
        exact congrArg (· ++ _) (filterMap_dial?_group o.effects)
    · refine .keeps rfl ?_
      rw [List.append_nil]
      exact filterMap_dial?_group o.effects

/-- A mark is set with a dial, and taken away when a connection with the device is taken up or the
dial failed. -/
theorem redials_handle (n : Node) (room : SessionId → Room) (c : Command) :
    Redials n c (n.handle room c) := by
  cases c with
  | accepted a => exact .keeps rfl rfl
  | connected a d => exact .ends d (.inl ⟨a, rfl⟩) rfl rfl
  | dialFailed d e => exact .ends d (.inr ⟨e, rfl⟩) rfl rfl
  | publish mime data =>
    exact .keeps rfl (filterMap_dial?_group (n.group.publishLocal room mime data).effects)
  | discovery e =>
    exact redials_takeAndDial n _ (n.group.onDiscovery n.identity n.port n.machine e) 0
      fun _ d => some d
  | shutdown _ => exact redials_take n _ _
  | report id r =>
    cases r with
    | authenticated => exact redials_take n _ (n.group.promote id)
    | update mime data => exact redials_take n _ (n.group.acceptUpdate room id mime data)
    | flushed seq => exact .keeps rfl rfl
    | closed reason =>
      exact redials_takeAndDial n _ (n.group.remove id reason) redialDelay _

end Node

namespace Station

variable {first s s' : Station} {hs : List Happening} {h : Happening} {k : Device.Identity}
  {c : Node.Command}

/-! ## Dials under way -/

/-- How the connection came about that a command tells the node of. -/
def opening? (s : Station) : Node.Command → Option Opening
  | .connected a _ => (s.lines.get? a.id).map (·.opening)
  | _ => none

/-- The command tells the node what came of a dial of the device. -/
def isOutcome (s : Station) (k : Device.Identity) (c : Node.Command) : Bool :=
  match c with
  | .connected _ d => d.identity = k && (s.opening? c).any (·.dialed?.isSome)
  | .dialFailed d _ => d.identity = k
  | _ => false

/-- The command tells the node of a connection with the device that the user asked for. -/
def isAsked (s : Station) (k : Device.Identity) (c : Node.Command) : Bool :=
  match c with
  | .connected _ d => d.identity = k && (s.opening? c).any (·.dialed?.isNone)
  | _ => false

/-- How many dials of the device are under way: those that are out, and those of which the node has
not handled yet what came of them. -/
def dialsUnderWay (s : Station) (k : Device.Identity) : Nat :=
  s.dials.countP (·.identity = k) + s.queue.countP (s.isOutcome k)

/-- 1 if the node has marked the device as one that it is dialing. -/
def mark (s : Station) (k : Device.Identity) : Nat := if k ∈ s.node.dialing then 1 else 0

/-- The node takes up a connection with the device that the user asked for, while a dial of it is
under way. -/
def crosses (s : Station) (k : Device.Identity) : Happening → Bool
  | .handles _ => s.queue.head?.any (s.isAsked k) && 0 < s.dialsUnderWay k
  | _ => false

/-- How often that happened in the course of what happened to a station. -/
def crossings (k : Device.Identity) (s : Station) : List Happening → Nat
  | [] => 0
  | h :: hs => (s.crosses k h).toNat + ((s.next? h).map fun s' => crossings k s' hs).getD 0

/-! ## One step -/

theorem mark_le (s : Station) (k : Device.Identity) : s.mark k ≤ 1 := by
  unfold mark
  split <;> omega

/-- How a connection came about does not change while the command about it waits. -/
theorem opening?_next (hstep : Step s h s') (hc : Grounded first hs s c) :
    s'.opening? c = s.opening? c := by
  cases c with
  | connected a d =>
    obtain ⟨l, hl, -⟩ := hc
    obtain ⟨l', hl', -, hsame⟩ := line_stays hstep hl
    simp [opening?, hl, hl', hsame]
  | accepted _ | dialFailed _ _ | report _ _ | publish _ _ | discovery _ | shutdown _ => rfl

theorem isOutcome_next (hstep : Step s h s') (hc : Grounded first hs s c) (k : Device.Identity) :
    s'.isOutcome k c = s.isOutcome k c := by
  unfold isOutcome
  rw [opening?_next hstep hc]

theorem countP_isOutcome_next (hsound : Sound first hs s) (hstep : Step s h s')
    {queue : List Node.Command} (hqueue : ∀ c ∈ queue, c ∈ s.queue) (k : Device.Identity) :
    queue.countP (s'.isOutcome k) = queue.countP (s.isOutcome k) :=
  List.countP_congr fun c hc => by rw [isOutcome_next hstep (hsound.queue c (hqueue c hc)) k]

/-- Nothing but the node handling a command changes the marks, or how many dials are under way: a
dial that comes to an end is one less that is out, and one outcome more that waits. -/
theorem dialsUnderWay_next (hsound : Sound first hs s) (hstep : Step s h s') (k : Device.Identity) :
    (∃ nonce c rest, h = .handles nonce ∧ s.stopped = false ∧ s.queue = c :: rest ∧
      s' = s.handle nonce c rest) ∨
    (s'.dialsUnderWay k = s.dialsUnderWay k ∧ s'.mark k = s.mark k) := by
  have hwaiting := countP_isOutcome_next hsound hstep (fun c hc => hc) k
  have told : ∀ {cs : List Node.Command}, (∀ c ∈ cs, s'.isOutcome k c = false) →
      s.dials.countP (·.identity = k) + (s.queue ++ cs).countP (s'.isOutcome k) =
        s.dialsUnderWay k := by
    intro cs hcs
    have hnone : cs.countP (s'.isOutcome k) = 0 := List.countP_eq_zero.2 (by simpa using hcs)
    rw [dialsUnderWay, List.countP_append, hnone, hwaiting, Nat.add_zero]
  have ends : ∀ {d : Device} {c : Node.Command}, d ∈ s.dials →
      s'.isOutcome k c = decide (d.identity = k) →
      (s.dials.erase d).countP (·.identity = k) + (s.queue ++ [c]).countP (s'.isOutcome k) =
        s.dialsUnderWay k := by
    intro d c hd hc
    have hperm := (List.perm_cons_erase hd).countP_eq (p := fun d => decide (d.identity = k))
    rw [List.countP_cons] at hperm
    rw [dialsUnderWay, List.countP_append, List.countP_singleton, hc, hwaiting]
    omega
  cases hstep with
  | @opens id w conn how hfresh hdials =>
    refine .inr ⟨?_, rfl⟩
    have hopening : ∀ d, (s.opened id w conn how).opening? (.connected (arrival id w) d) =
        some how := by
      simp [opening?, arrival, opened, tell, Table.get?_put]
    -- Only a connection that was dialed on the strength of a report ends a dial.
    cases how with
    | accepted => exact told (by simp [isOutcome, Opening.command])
    | asked d => exact told (by simp [isOutcome, Opening.command, hopening, Opening.dialed?])
    | dialed d =>
      refine ends (hdials d rfl) ?_
      rw [Opening.command, isOutcome]
      simp [hopening, Opening.dialed?]
  | dialFails e hd => exact .inr ⟨ends hd rfl, rfl⟩
  | discovers _ | publishes _ | stops => exact .inr ⟨told (by simp [isOutcome]), rfl⟩
  | handles nonce hrunning hqueue => exact .inl ⟨nonce, _, _, rfl, hrunning, hqueue, rfl⟩
  | moves hl hm =>
    refine .inr ⟨told fun c hc => ?_, rfl⟩
    obtain ⟨n, -, hreport⟩ := List.mem_filterMap.1 hc
    cases n with
    | report r =>
      cases hreport
      rfl
    | asks | withdraws | remembers f => cases hreport
  | refuses | answers | changes | passes => exact .inr ⟨congrArg (_ + ·) hwaiting, rfl⟩

/-- A command that puts an end to a dial tells what came of it, or of a connection that the user
asked for. -/
theorem isOutcome_or_isAsked {d : Device} (hc : Grounded first hs s c)
    (hends : (∃ a, c = .connected a d) ∨ ∃ e, c = .dialFailed d e) :
    s.isOutcome d.identity c = true ∨ s.isAsked d.identity c = true := by
  obtain ⟨a, rfl⟩ | ⟨e, rfl⟩ := hends
  · obtain ⟨l, hl, -⟩ := hc
    have hopening : s.opening? (.connected a d) = some l.opening := by
      simp [opening?, hl]
    cases hdialed : l.opening.dialed? <;> simp [isOutcome, isAsked, hopening, hdialed]
  · exact .inl (decide_eq_true rfl)

/-- How many dials of the device the node asks for when it handles the command. -/
def begun (s : Station) (k : Device.Identity) (c : Node.Command) : Nat :=
  ((s.node.handle s.room c).effects.filterMap dial?).countP (·.identity = k)

/-- The node sets a mark with each dial that it asks for. It takes a mark away when it takes up a
connection with the device or is told that the dial failed. -/
theorem mark_handle (s : Station) (nonce : Bytes) (c : Node.Command) (rest : List Node.Command)
    (k : Device.Identity) :
    (s.handle nonce c rest).mark k = s.mark k + s.begun k c ∨
      ((s.handle nonce c rest).mark k = 0 ∧ s.begun k c = 0 ∧
        ∃ d, d.identity = k ∧ ((∃ a, c = .connected a d) ∨ ∃ e, c = .dialFailed d e)) := by
  cases Node.redials_handle s.node s.room c with
  | keeps hmarks hnone => exact .inl (by simp [mark, begun, handle, hmarks, hnone])
  | begins d hfresh hmarks hdial =>
    refine .inl ?_
    by_cases hk : d.identity = k
    · have hnone : k ∉ s.node.dialing := hk ▸ hfresh
      simp [mark, begun, handle, hmarks, hdial, hk, hnone]
    · simp [mark, begun, handle, hmarks, hdial, hk, Ne.symm hk]
  | ends d hends hmarks hnone =>
    by_cases hk : d.identity = k
    · refine .inr ⟨by simp [mark, handle, hmarks, hk], ?_, d, hk, hends⟩
      rw [begun, hnone, List.countP_nil]
    · exact .inl (by simp [mark, begun, handle, hmarks, hnone, Ne.symm hk])

/-- The outcomes that wait while the node handles a command are the others. -/
theorem countP_isOutcome_handle (hsound : Sound first hs s) (nonce : Bytes)
    {rest : List Node.Command} (hrunning : s.stopped = false) (hqueue : s.queue = c :: rest)
    (k : Device.Identity) :
    rest.countP ((s.handle nonce c rest).isOutcome k) + (s.isOutcome k c).toNat =
      s.queue.countP (s.isOutcome k) := by
  rw [countP_isOutcome_next hsound (.handles nonce hrunning hqueue)
    (fun c' hc' => hqueue ▸ List.mem_cons_of_mem c hc') k, hqueue, List.countP_cons]
  cases s.isOutcome k c <;> rfl

/-- The node handles a command: one dial less is under way if the command tells what came of it, and
those that the node asks for are under way from now on. -/
theorem dialsUnderWay_handle (hsound : Sound first hs s) (nonce : Bytes)
    {rest : List Node.Command} (hrunning : s.stopped = false) (hqueue : s.queue = c :: rest)
    (hc : c.isShutdown = false) (k : Device.Identity) :
    (s.handle nonce c rest).dialsUnderWay k + (s.isOutcome k c).toNat =
      s.dialsUnderWay k + s.begun k c := by
  have hwaiting := countP_isOutcome_handle hsound nonce hrunning hqueue k
  have hdials : (s.handle nonce c rest).dials = s.dials ++
      (s.node.handle s.room c).effects.filterMap dial? :=
    if_neg (Bool.eq_false_iff.1 hc)
  rw [dialsUnderWay, Nat.add_assoc, show (s.handle nonce c rest).queue = rest from rfl, hwaiting,
    hdials, List.countP_append, dialsUnderWay, begun]
  omega

/-- No more than that are under way if the command may be the one to stop, with which the node gives
up the dials that are out. -/
theorem dialsUnderWay_handle_le (hsound : Sound first hs s) (nonce : Bytes)
    {rest : List Node.Command} (hrunning : s.stopped = false) (hqueue : s.queue = c :: rest)
    (k : Device.Identity) :
    (s.handle nonce c rest).dialsUnderWay k + (s.isOutcome k c).toNat ≤
      s.dialsUnderWay k + s.begun k c := by
  by_cases hc : c.isShutdown = true
  · have hwaiting := countP_isOutcome_handle hsound nonce hrunning hqueue k
    have hdials : (s.handle nonce c rest).dials = [] := if_pos hc
    rw [dialsUnderWay, Nat.add_assoc, show (s.handle nonce c rest).queue = rest from rfl, hwaiting,
      hdials, List.countP_nil, dialsUnderWay]
    omega
  · exact Nat.le_of_eq
      (dialsUnderWay_handle hsound nonce hrunning hqueue (Bool.eq_false_iff.2 hc) k)

/-- When the node handles a command, one more dial may be left without a mark than before only if
the command tells of a connection that the user asked for and the device is being dialed. -/
theorem unmarked_handle (hsound : Sound first hs s) {nonce : Bytes} {rest : List Node.Command}
    (hrunning : s.stopped = false) (hqueue : s.queue = c :: rest) (k : Device.Identity) :
    (s.handle nonce c rest).dialsUnderWay k - (s.handle nonce c rest).mark k ≤
      (s.dialsUnderWay k - s.mark k) + (s.crosses k (.handles nonce)).toNat := by
  have hunder := dialsUnderWay_handle_le hsound nonce hrunning hqueue k
  have hone := s.mark_le k
  obtain hmark | ⟨hmark, hnone, d, rfl, hends⟩ := s.mark_handle nonce c rest k
  · omega
  -- The mark is dropped for the outcome of a dial, which takes the dial from the count, or for a
  -- connection that the user asked for, and then the crossing is counted.
  · obtain houtcome | hasked :=
      isOutcome_or_isAsked (hsound.queue c (hqueue ▸ List.mem_cons_self)) hends
    · rw [houtcome, Bool.toNat_true] at hunder
      omega
    · have hcrosses : s.crosses d.identity (.handles nonce) =
          decide (0 < s.dialsUnderWay d.identity) := by
        simp [crosses, hqueue, hasked]
      by_cases hpos : 0 < s.dialsUnderWay d.identity
      · simp only [hcrosses, hpos, decide_true, Bool.toNat_true]
        omega
      · omega

/-- A step leaves at most as many dials without a mark as were without one before, and one more if
the node takes up a connection that the user asked for. -/
theorem unmarked_next (hsound : Sound first hs s) (hstep : Step s h s') (k : Device.Identity) :
    s'.dialsUnderWay k - s'.mark k ≤
      (s.dialsUnderWay k - s.mark k) + (s.crosses k h).toNat := by
  obtain ⟨nonce, c, rest, rfl, hrunning, hqueue, rfl⟩ | ⟨hunder, hmark⟩ :=
    dialsUnderWay_next hsound hstep k
  · exact unmarked_handle hsound hrunning hqueue k
  · rw [hunder, hmark]
    exact Nat.le_add_right _ _

/-- What came of a dial takes the mark of the device away. -/
theorem mark_handle_of_isOutcome (nonce : Bytes) (rest : List Node.Command)
    (hc : s.isOutcome k c = true) : (s.handle nonce c rest).mark k = 0 := by
  have hends : ∃ d : Device, d.identity = k ∧
      (s.node.handle s.room c).node.dialing = s.node.dialing.filter (· ≠ d.identity) := by
    cases c with
    | connected a d =>
      rw [isOutcome, Bool.and_eq_true] at hc
      exact ⟨d, of_decide_eq_true hc.1, rfl⟩
    | dialFailed d e => exact ⟨d, of_decide_eq_true hc, rfl⟩
    | accepted _ | report _ _ | publish _ _ | discovery _ | shutdown _ => cases hc
  obtain ⟨d, rfl, hmarks⟩ := hends
  simp [mark, handle, hmarks]

/-- As long as the node has not stopped, a mark stands for a dial under way: what came of a dial, of
whichever of the device, leaves no mark, and any other command leaves all dials under way. -/
theorem mark_le_dialsUnderWay_next (hsound : Sound first hs s) (hstep : Step s h s')
    (hrunning : s'.stopped = false) (hle : s.mark k ≤ s.dialsUnderWay k) :
    s'.mark k ≤ s'.dialsUnderWay k := by
  obtain ⟨nonce, c, rest, rfl, hrunning', hqueue, rfl⟩ | ⟨hunder, hmark⟩ :=
    dialsUnderWay_next hsound hstep k
  · have hunder := dialsUnderWay_handle hsound nonce hrunning' hqueue hrunning k
    cases houtcome : s.isOutcome k c with
    | true =>
      rw [mark_handle_of_isOutcome nonce rest houtcome]
      exact Nat.zero_le _
    | false =>
      rw [houtcome, Bool.toNat_false, Nat.add_zero] at hunder
      obtain hmark | ⟨hmark, -⟩ := s.mark_handle nonce c rest k <;> omega
  · rw [hunder, hmark]
    exact hle

/-! ## Every run -/

theorem next?_of_step (hstep : Step s h s') : s.next? h = some s' := by
  cases hstep with
  | opens w conn hfresh hdials => exact if_pos ⟨hfresh, hdials⟩
  | dialFails e hd => exact if_pos hd
  | discovers | passes | stops => rfl
  | publishes hok => simp [next?, hok]
  | refuses herror => simp [next?, herror]
  | handles nonce hrunning hqueue => simp [next?, hrunning, hqueue]
  | moves hl hm => simp [next?, hl, hm]
  | answers allow hl hasking => simp [next?, hl, hasking]
  | changes conn hl => simp [next?, hl]

theorem play?_of_run (hrun : Run first hs s) : first.play? hs = some s := by
  induction hrun with
  | start => rfl
  | step _ hstep ih =>
    rw [play?] at ih ⊢
    rw [play?_snoc, ih, Option.bind_some, next?_of_step hstep]

theorem crossings_snoc (hrun : Run first hs s) (h : Happening) (k : Device.Identity) :
    crossings k first (hs ++ [h]) = crossings k first hs + (s.crosses k h).toNat := by
  have hplay := play?_of_run hrun
  clear hrun
  induction hs generalizing first with
  | nil =>
    cases hplay
    cases hnext : s.next? h <;> simp [crossings, hnext]
  | cons h₁ hs ih =>
    rw [play?, play?_cons, Option.bind_eq_some_iff] at hplay
    obtain ⟨s₁, hnext, hrest⟩ := hplay
    simp [crossings, hnext, ih hrest, Nat.add_assoc]

/-- **One dial at a time.** Let a node start, and let anything happen to it. Then of every device at
most one dial that the node began of its own accord is under way, and one more for each time that it
took up a connection with the device that the user had asked for while such a dial was under way. -/
theorem dials_bounded {c : Config} {me : LocalIdentity} {port : UInt16}
    {machine : List Net.IpAddress} {registry : Registry}
    (hstart : start c me port machine registry = .ok first) (hrun : Run first hs s)
    (k : Device.Identity) : s.dialsUnderWay k ≤ 1 + crossings k first hs := by
  have hunmarked : s.dialsUnderWay k - s.mark k ≤ crossings k first hs := by
    induction hrun with
    | start =>
      obtain ⟨-, rfl⟩ := start_spec hstart
      exact Nat.zero_le _
    | @step hs s s' h hrun hstep ih =>
      have hnext := unmarked_next (sound_run hstart hrun) hstep k
      rw [crossings_snoc hrun]
      omega
  have hone := s.mark_le k
  omega

/-! ## A dial that lost its mark -/

/-- What the peer has sent is read, and then the session with it ends. -/
def hungUp : Connection :=
  { incoming := { capacity := 64, writerClosed := true }, outgoing := { capacity := 64 } }

/-- The device is discovered and dialed. Before the dial comes to an end the user connects to the
device, the peer hangs up, and discovery reports the device again. -/
def namedMeanwhile : List Happening :=
  [.discovers (.added zeta), .handles [],
    .opens 0 { peer := zeta.socketAddress } hungUp (.asked zeta), .handles lonelyNonce,
    .moves 0 .reader, .moves 0 (.session 0), .passes 1000, .moves 0 .close, .handles [],
    .discovers (.added zeta), .handles []]

theorem run_namedMeanwhile : ∃ s, Run lonely namedMeanwhile s ∧
    s.dials = [zeta, zeta] ∧ s.dialsUnderWay zeta.identity = 2 := by
  have hplay : ((lonely.play? namedMeanwhile).any fun s =>
      s.dials = [zeta, zeta] ∧ s.dialsUnderWay zeta.identity = 2) = true := by
    decide +kernel
  obtain ⟨s, hs, hend⟩ := Option.any_eq_true _ _ |>.1 hplay
  exact ⟨s, run_of_play hs, of_decide_eq_true hend⟩

/-- One connection was taken up out of turn, and one dial is out of turn. -/
theorem dials_bounded_named :
    start (.default "/home/user") { name := "alpha" } 17394 [] {} = .ok lonely ∧
      ∃ s, Run lonely namedMeanwhile s ∧ s.dialsUnderWay zeta.identity = 2 ∧
        crossings zeta.identity lonely namedMeanwhile = 1 ∧
        s.dialsUnderWay zeta.identity ≤ 1 + crossings zeta.identity lonely namedMeanwhile := by
  have hstart : start (.default "/home/user") { name := "alpha" } 17394 [] {} = .ok lonely := rfl
  have hcrossings : crossings zeta.identity lonely namedMeanwhile = 1 := by
    decide +kernel
  obtain ⟨s, hrun, -, htwo⟩ := run_namedMeanwhile
  exact ⟨hstart, s, hrun, htwo, hcrossings, dials_bounded hstart hrun zeta.identity⟩

/-- **Two dials at once.** A node dials a device while it is dialing it. -/
theorem named_device_is_dialed_twice :
    ∃ hs s, Run lonely hs s ∧ s.dials = [zeta, zeta] ∧ 1 < s.dialsUnderWay zeta.identity := by
  obtain ⟨s, hrun, hdials, htwo⟩ := run_namedMeanwhile
  exact ⟨namedMeanwhile, s, hrun, hdials, by omega⟩

/-! ## No mark is left behind -/

theorem mark_le_dialsUnderWay {c : Config} {me : LocalIdentity} {port : UInt16}
    {machine : List Net.IpAddress} {registry : Registry}
    (hstart : start c me port machine registry = .ok first) (hrun : Run first hs s)
    (hrunning : s.stopped = false) (k : Device.Identity) : s.mark k ≤ s.dialsUnderWay k := by
  induction hrun with
  | start =>
    obtain ⟨-, rfl⟩ := start_spec hstart
    exact Nat.zero_le _
  | @step hs s s' h hrun hstep ih =>
    exact mark_le_dialsUnderWay_next (sound_run hstart hrun) hstep hrunning
      (ih (stopped_before hstep hrunning))

/-- **No mark is left behind.** Let a node start, and let anything happen to it before it has
handled the command to stop. Then of every device that it has marked as one that it is dialing, a
dial that the node began of its own accord is out, or a command waits that tells what came of such a
dial. So a device of which no dial is under way can be dialed again: whether the node dials it when
discovery reports it depends on the configuration, on which of the two dials first, and on whether
there is a session with it. -/
theorem marked_is_being_dialed {c : Config} {me : LocalIdentity} {port : UInt16}
    {machine : List Net.IpAddress} {registry : Registry}
    (hstart : start c me port machine registry = .ok first) (hrun : Run first hs s)
    (hrunning : s.stopped = false) :
    (∀ k ∈ s.node.dialing,
      (∃ d ∈ s.dials, d.identity = k) ∨ ∃ c ∈ s.queue, s.isOutcome k c = true) ∧
    ∀ d, s.dialsUnderWay d.identity = 0 →
      s.node.wouldDial d = (s.node.autoConnect && s.node.identity.dialsFirst s.node.port d &&
        !s.node.group.hasSessionFor d) := by
  have hle := mark_le_dialsUnderWay hstart hrun hrunning
  refine ⟨fun k hk => ?_, fun d hnone => ?_⟩
  · have hunder : 0 < s.dialsUnderWay k := by
      have hmark : s.mark k = 1 := if_pos hk
      have := hle k
      omega
    rw [dialsUnderWay, Nat.add_pos_iff_pos_or_pos, List.countP_pos_iff,
      List.countP_pos_iff] at hunder
    exact hunder.imp_left fun ⟨d, hd, hdevice⟩ => ⟨d, hd, of_decide_eq_true hdevice⟩
  · have hfree : d.identity ∉ s.node.dialing := by
      intro hmem
      have hmark : s.mark d.identity = 1 := if_pos hmem
      have := hle d.identity
      omega
    simp [Node.wouldDial, hfree]

/-- Both dials of the device fail, the one that lost its mark and the one that has it. -/
def bothFail : List Happening :=
  namedMeanwhile ++ [.dialFails zeta .refused, .dialFails zeta .refused]

/-- Both outcomes wait, and the device is marked; once the node has handled them, it would dial the
device again. -/
theorem marked_is_being_dialed_bothFail :
    start (.default "/home/user") { name := "alpha" } 17394 [] {} = .ok lonely ∧
      (∃ s, Run lonely bothFail s ∧ s.stopped = false ∧ zeta.identity ∈ s.node.dialing ∧
        s.dials = [] ∧ ∃ c ∈ s.queue, s.isOutcome zeta.identity c = true) ∧
      ∃ s, Run lonely (bothFail ++ [.handles [], .handles []]) s ∧ s.stopped = false ∧
        s.dialsUnderWay zeta.identity = 0 ∧ s.node.wouldDial zeta = true := by
  have hstart : start (.default "/home/user") { name := "alpha" } 17394 [] {} = .ok lonely := rfl
  -- The rule is spelled out because no test tells of a node whether it would dial.
  have hwait : ((lonely.play? bothFail).any fun s =>
      s.stopped = false ∧ zeta.identity ∈ s.node.dialing ∧ s.dials = []) = true := by
    decide +kernel
  have hdone : ((lonely.play? (bothFail ++ [.handles [], .handles []])).any fun s =>
      s.stopped = false ∧ s.dialsUnderWay zeta.identity = 0 ∧
        (s.node.autoConnect && s.node.identity.dialsFirst s.node.port zeta &&
          !s.node.group.hasSessionFor zeta) = true) = true := by
    decide +kernel
  obtain ⟨s, hs, hend⟩ := Option.any_eq_true _ _ |>.1 hwait
  obtain ⟨hrunning, hmarked, hdials⟩ := of_decide_eq_true hend
  obtain ⟨s', hs', hend'⟩ := Option.any_eq_true _ _ |>.1 hdone
  obtain ⟨hrunning', hnone, hrule⟩ := of_decide_eq_true hend'
  refine ⟨hstart, ⟨s, run_of_play hs, hrunning, hmarked, hdials, ?_⟩,
    s', run_of_play hs', hrunning', hnone, ?_⟩
  · obtain ⟨d, hd, -⟩ | hwaits :=
      (marked_is_being_dialed hstart (run_of_play hs) hrunning).1 _ hmarked
    · rw [hdials] at hd
      cases hd
    · exact hwaits
  · exact ((marked_is_being_dialed hstart (run_of_play hs') hrunning').2 zeta hnone).trans hrule

end Station

end SharedClipboard
