import SharedClipboard.Proofs.Network.Work
import Mathlib.Combinatorics.SimpleGraph.Connectivity.Connected
import Mathlib.Combinatorics.SimpleGraph.DegreeSum

/-!
# An update reaches every node once

**Theorem (`update_floods_once`).** In a connected network that is quiet and in which all nodes hold
the same content or none, a user publishes something new. Whatever the order in which its frames are
written, delivered and reported, the network comes to rest, every node ends with the content and has
recorded it once, no update is dropped as stale, and the number of frames sent is twice the number
of edges less the number of nodes that were told.

The proof follows the set `S` of nodes that have the content. The invariant `Flooding` says that a
node outside `S` is as it was at the start and has sent nothing, that a node in `S` has recorded the
content once, and that a frame is on its way across every edge out of `S`. A frame that is delivered
into `S` is an echo. A frame that is delivered to a node outside of `S` adds the node, and is
accepted: the node is as it was, with nothing under way. Each node that is added sends a frame to
each neighbour but one, which gives the count. At rest there is no edge out of `S`, and the network
is connected.
-/

namespace SharedClipboard

/-- A frame is queued or in transit. -/
def Line.Carrying (l : Line) : Prop := l.outbox ≠ [] ∨ l.wire ≠ []

namespace Network

variable {N : Type} [DecidableEq N] {w : Wiring N} {c : Codec} {first n : Network N} {mime : String}
  {data : Bytes} {S : Finset N} {sent : Nat}

/-! ## Delivery of the one content -/

/-- A content that the node has is dropped as an echo. -/
theorem Sound.afterDelivery_of_current (h : Sound w c n) {u v : N} {id : SessionId}
    (hid : w.session v u = some id)
    (hcur : (n.group v).history.isCurrent (.of mime data) = true) :
    n.afterDelivery w u v id mime data =
      { move := .deliver u v, network := n.onLine u v Line.read, outcome := some .echo } := by
  obtain ⟨e, he, hrole⟩ := h.session hid
  simp only [afterDelivery, Group.acceptUpdate_of_current he hrole hcur]
  rw [settle_of_same (n.onLine u v Line.read) w v rfl rfl]

/-- A content that is new to the node is taken up, if nothing is under way to the sender. -/
theorem Sound.afterDelivery_of_new (h : Sound w c n) {u v : N} {id : SessionId}
    (hid : w.session v u = some id)
    (hnew : (n.group v).history.isCurrent (.of mime data) = false)
    (hfree : ∀ e, (n.group v).sessions.get? id = some e → e.inFlight = none) :
    ∃ origin, n.afterDelivery w u v id mime data =
      { move := .deliver u v
        network := (n.onLine u v Line.read).spread w v mime data origin (some u)
        effects := ((n.group v).accept (fun _ => .free) mime data origin (some id)).effects
        outcome := some (.accepted (n.group v).history.nextSeq
          ((n.group v).recipients (fun _ => .free) (some id)).length) } := by
  obtain ⟨e, he, hrole⟩ := h.session hid
  refine ⟨.remote e.device, ?_⟩
  simp only [afterDelivery, Group.acceptUpdate_of_new he hrole (hfree e he) hnew, Network.spread,
    Option.bind_some, hid]
  rfl

/-! ## The nodes that have the content -/

/-- Exactly the nodes in `S` have recorded the content since the start, and only they have sent
frames, which carry it. -/
structure Informed (first : Network N) (mime : String) (data : Bytes) (S : Finset N)
    (n : Network N) : Prop extends
    Frames (fun x => x.frame = (Packet.syncRequest mime data).encode)
      (· = (Packet.syncRequest mime data).encode) n.line where
  untouched : ∀ v ∉ S, n.group v = first.group v
  recorded : ∀ v ∈ S, ∃ origin,
    (n.group v).history = ((first.group v).history.record mime data origin).2
  silent : ∀ u ∉ S, ∀ v, (n.line u v).Empty

omit [DecidableEq N] in
theorem informed_start (mime : String) (data : Bytes) (hquiet : first.Quiet w) :
    Informed first mime data ∅ first where
  toFrames := frames_of_empty _ _ hquiet.lines
  untouched _ _ := rfl
  recorded _ hv := by simp at hv
  silent u _ v := hquiet.lines u v

omit [DecidableEq N] in
theorem Informed.mem (h : Informed first mime data S n) {u v : N} (hline : ¬ (n.line u v).Empty) :
    u ∈ S := by
  by_contra hu
  exact hline (h.silent u hu v)

/-- A node that has not been told takes up the content. -/
theorem Informed.spread (h : Informed first mime data S n) (hsound : Sound w c n) {v : N}
    (hv : v ∉ S) (origin : Origin) (from? : Option N) :
    Informed first mime data (insert v S) (n.spread w v mime data origin from?) where
  toFrames := hsound.frames_spread h.toFrames v rfl from?
  untouched a ha := by
    rw [Finset.mem_insert, not_or] at ha
    rw [group_spread_of_ne n w ha.1]
    exact h.untouched a ha.2
  recorded a ha := by
    by_cases hav : a = v
    · subst hav
      refine ⟨origin, ?_⟩
      rw [group_spread_self, ← h.untouched a hv]
      rfl
    · rw [group_spread_of_ne n w hav]
      exact h.recorded a (Finset.mem_of_mem_insert_of_ne ha hav)
  silent a ha b := by
    rw [Finset.mem_insert, not_or] at ha
    rw [hsound.line_spread_of_not fun hon => ha.1 hon.1]
    exact h.silent a ha.2 b

/-- A line of a node that has been told changes. -/
theorem Informed.onLine (h : Informed first mime data S n) {u v : N} (hu : u ∈ S) {f : Line → Line}
    (hframes : Frames (fun x => x.frame = (Packet.syncRequest mime data).encode)
      (· = (Packet.syncRequest mime data).encode) (n.onLine u v f).line) :
    Informed first mime data S (n.onLine u v f) where
  toFrames := hframes
  untouched := h.untouched
  recorded := h.recorded
  silent a ha b := by
    rw [line_onLine, if_neg fun hab : a = u ∧ b = v => ha (hab.1 ▸ hu)]
    exact h.silent a ha b

theorem Informed.report (h : Informed first mime data S n) {u v : N} (hu : u ∈ S) (id : SessionId)
    (seq : Nat) : Informed first mime data S (n.afterReport u v id seq).network := by
  have hlines := h.onLine hu (h.toFrames.report u v)
  refine ⟨hlines.toFrames, fun a ha => ?_, fun a ha => ?_, hlines.silent⟩
  · have hau : a ≠ u := fun heq => ha (heq ▸ hu)
    exact (Function.update_of_ne hau _ _).trans (h.untouched a ha)
  · obtain ⟨origin, hrecord⟩ := h.recorded a ha
    refine ⟨origin, ?_⟩
    rw [← hrecord]
    by_cases hau : a = u
    · subst hau
      show (Function.update n.group a ((n.group a).flushed id seq) a).history = _
      rw [Function.update_self]
      rfl
    · exact congrArg Group.history (Function.update_of_ne hau _ n.group)

/-! ## The invariant -/

variable [Fintype N]

/-- The content is at the nodes in `S` and on its way across every edge out of `S`, and each node
but the first was told once. -/
structure Flooding (w : Wiring N) (first : Network N) (mime : String) (data : Bytes) (S : Finset N)
    (sent : Nat) (n : Network N) : Prop extends Informed first mime data S n where
  reaches : ∀ u ∈ S, ∀ v ∉ S, w.graph.Adj u v → (n.line u v).Carrying
  count : sent + S.card = 1 + ∑ v ∈ S, w.graph.degree v
  source : S.Nonempty

/-- The node at which the user publishes the content is the first to have it. -/
theorem flooding_start (hsound : Sound w c first) (hquiet : first.Quiet w) (u : N)
    (origin : Origin) :
    Flooding w first mime data {u} (w.onward u none).card
      (first.spread w u mime data origin none) where
  toInformed := by
    have hinformed := (informed_start mime data hquiet).spread hsound (Finset.notMem_empty u)
      origin none
    rwa [insert_empty_eq] at hinformed
  reaches a ha b _ hadj := by
    rw [Finset.mem_singleton] at ha
    subst ha
    rw [hsound.line_spread_of_onward ⟨hadj, by simp⟩]
    exact .inl (by simp [Line.queue])
  count := by
    rw [Finset.card_singleton, Finset.sum_singleton, Wiring.card_onward_none, Nat.add_comm]
  source := Finset.singleton_nonempty u

theorem Flooding.write (h : Flooding w first mime data S sent n) {u v : N} {x : Outgoing}
    (hx : (n.line u v).outbox.head? = some x) :
    Flooding w first mime data S sent (n.onLine u v (·.written x)) where
  toInformed := by
    have hu : u ∈ S := h.mem fun hempty => by
      rw [hempty] at hx
      cases hx
    exact h.onLine hu (h.toFrames.write hx id)
  reaches a ha b hb hadj := by
    rw [line_onLine]
    split
    · exact .inr (by simp [Line.written])
    · exact h.reaches a ha b hb hadj
  count := h.count
  source := h.source

/-- A frame that a node reads which has the content is of no consequence. -/
theorem Flooding.echo (h : Flooding w first mime data S sent n) {u v : N} (hu : u ∈ S)
    (hv : v ∈ S) : Flooding w first mime data S sent (n.onLine u v Line.read) where
  toInformed := h.onLine hu (h.toFrames.read u v)
  reaches a ha b hb hadj := by
    rw [line_onLine, if_neg fun hab : a = u ∧ b = v => hb (hab.2 ▸ hv)]
    exact h.reaches a ha b hb hadj
  count := h.count
  source := h.source

/-- A node that is told sends the content on to all its neighbours but the one that told it. -/
theorem Flooding.taken (h : Flooding w first mime data S sent n) (hsound : Sound w c n) {u v : N}
    (hu : u ∈ S) (hv : v ∉ S) (hadj : w.graph.Adj v u) (origin : Origin) :
    Flooding w first mime data (insert v S) (sent + (w.onward v (some u)).card)
      ((n.onLine u v Line.read).spread w v mime data origin (some u)) where
  toInformed :=
    (h.onLine hu (h.toFrames.read u v)).spread (hsound.read u v) hv origin (some u)
  -- The new node has sent the content to all its neighbours but the one that it has it from.
  reaches a ha b hb hab := by
    rw [Finset.mem_insert, not_or] at hb
    by_cases hav : a = v
    · subst hav
      have hbu : some b ≠ some u := fun heq => hb.2 (Option.some.inj heq ▸ hu)
      rw [(hsound.read u a).line_spread_of_onward ⟨hab, hbu⟩]
      exact .inl (by simp [Line.queue])
    · rw [(hsound.read u v).line_spread_of_not fun hon => hav hon.1, line_onLine,
        if_neg fun hline : a = u ∧ b = v => hb.1 hline.2]
      exact h.reaches a (Finset.mem_of_mem_insert_of_ne ha hav) b hb.2 hab
  count := by
    have hcount := h.count
    have hdegree := Wiring.card_onward_some hadj
    rw [Finset.card_insert_of_notMem hv, Finset.sum_insert hv]
    omega
  source := Finset.insert_nonempty v S

theorem Flooding.report (h : Flooding w first mime data S sent n) {u v : N} (hu : u ∈ S)
    (id : SessionId) (seq : Nat) :
    Flooding w first mime data S sent (n.afterReport u v id seq).network where
  toInformed := h.toInformed.report hu id seq
  reaches a ha b hb hadj := by
    have hold := h.reaches a ha b hb hadj
    show ((n.onLine u v Line.reported).line a b).Carrying
    rw [line_onLine]
    split <;> exact hold
  count := h.count
  source := h.source

/-! ## Every step, every run -/

/-- Whatever happens without a user tells at most one node more, and nothing is stale. -/
theorem flooding_step (hsound : Sound w c n) (hstart : Sound w c first) (hquiet : first.Quiet w)
    (hfits : c.Fits (.syncRequest mime data))
    (hnew : ∀ v, (first.group v).history.isCurrent (.of mime data) = false)
    (h : Flooding w first mime data S sent n) {t : Turn N} (hs : Step w c n t)
    (hmove : t.move.isPublish = false) :
    (∃ S', Flooding w first mime data S' (sent + t.sent) t.network) ∧
      t.outcome ≠ some .stale := by
  cases hs with
  | publish u hok => cases hmove
  | write hx => exact ⟨⟨S, h.write hx⟩, by simp [afterWrite]⟩
  | report hid hseq =>
    rename_i u v id seq
    have hu : u ∈ S := h.mem fun hempty => by
      rw [hempty] at hseq
      cases hseq
    exact ⟨⟨S, h.report hu id seq⟩, by simp [afterReport]⟩
  | deliver hid hframe hdecode =>
    rename_i u v id frame mime' data'
    have hu : u ∈ S := h.mem fun hempty => by
      rw [hempty] at hframe
      cases hframe
    rw [h.wires u v frame (List.mem_of_mem_head? hframe), Codec.decode_encode hfits] at hdecode
    cases hdecode
    by_cases hv : v ∈ S
    · obtain ⟨origin, hrecord⟩ := h.recorded v hv
      have hcur : (n.group v).history.isCurrent (.of mime data) = true := by
        rw [hrecord]
        exact History.isCurrent_record (hstart.honest v) mime data origin
      rw [hsound.afterDelivery_of_current hid hcur]
      exact ⟨⟨S, h.echo hu hv⟩, by simp⟩
    · have hgroup := h.untouched v hv
      obtain ⟨origin, hturn⟩ := hsound.afterDelivery_of_new hid (hgroup ▸ hnew v)
        fun e he => hquiet.settled v u id e hid (hgroup ▸ he)
      have hlength := hsound.length_recipients v (some u)
      rw [Option.bind_some, hid] at hlength
      rw [hturn]
      refine ⟨⟨insert v S, ?_⟩, by simp⟩
      rw [Turn.sent, Group.deliveries_accept, hlength]
      exact h.taken hsound hu hv (Wiring.adj_iff.2 ⟨id, hid⟩) origin

/-- At rest, in a connected network, every node has the content. -/
theorem Flooding.eq_univ (h : Flooding w first mime data S sent n) (hconn : w.graph.Connected)
    (hquiet : n.Quiet w) : S = Finset.univ := by
  have hclosed : ∀ u v, w.graph.Adj u v → u ∈ S → v ∈ S := by
    intro u v hadj hu
    by_contra hv
    have hcarrying := h.reaches u hu v hv hadj
    rw [hquiet.lines u v] at hcarrying
    simp [Line.Carrying] at hcarrying
  obtain ⟨p, hp⟩ := h.source
  refine Finset.eq_univ_iff_forall.2 fun v => ?_
  obtain ⟨walk⟩ := hconn.preconnected p v
  induction walk with
  | nil => exact hp
  | cons hadj _ ih => exact ih (hclosed _ _ hadj hp)

/-- Along a run without a user the content spreads, and nothing is stale. -/
theorem flooding_run {start : Network N} {S₀ : Finset N} {sent₀ : Nat} (hsound : Sound w c start)
    (hstart : Sound w c first) (hquiet : first.Quiet w)
    (hfits : c.Fits (.syncRequest mime data))
    (hnew : ∀ v, (first.group v).history.isCurrent (.of mime data) = false)
    (h : Flooding w first mime data S₀ sent₀ start) {ts : List (Turn N)} {last : Network N}
    (hrun : Run w c start ts last) (hts : ∀ t ∈ ts, t.move.isPublish = false) :
    (∃ S, Flooding w first mime data S (sent₀ + sentDuring ts) last) ∧
      ∀ t ∈ ts, t.outcome ≠ some .stale := by
  induction hrun with
  | start => exact ⟨⟨S₀, h⟩, by simp⟩
  | @turn ts n t hrun hs ih =>
    obtain ⟨⟨S, hS⟩, houtcomes⟩ := ih fun t' ht' => hts t' (List.mem_append_left _ ht')
    obtain ⟨⟨S', hS'⟩, houtcome⟩ := flooding_step (sound_run hsound hrun) hstart hquiet hfits hnew
      hS hs (hts t (by simp))
    refine ⟨⟨S', ?_⟩, fun t' ht' => ?_⟩
    · rwa [sentDuring_snoc, ← Nat.add_assoc]
    · rw [List.mem_append, List.mem_singleton] at ht'
      obtain hbefore | rfl := ht'
      · exact houtcomes t' hbefore
      · exact houtcome

omit [DecidableEq N] in
/-- No more frames are sent than there are directions of edges. -/
theorem Flooding.sent_le (h : Flooding w first mime data S sent n) :
    sent ≤ 2 * w.graph.edgeFinset.card := by
  have hpos := h.source.card_pos
  have hcount := h.count
  have hdegrees : ∑ v ∈ S, w.graph.degree v ≤ ∑ v, w.graph.degree v :=
    Finset.sum_le_sum_of_subset (Finset.subset_univ S)
  rw [w.graph.sum_degrees_eq_twice_card_edges] at hdegrees
  omega

/-- A content that gets a number is taken up by the node, which starts the flood. -/
theorem flooding_publish (hfirst : Sound w c first) (hquiet : first.Quiet w) {u : N} {seq : Nat}
    (hpublished : (first.afterPublish w u mime data).published = some seq) :
    (first.group u).history.isCurrent (.of mime data) = false ∧
      Flooding w first mime data {u} (first.afterPublish w u mime data).sent
        (first.afterPublish w u mime data).network := by
  obtain ⟨-, hsame⟩ | ⟨hcur, htaken⟩ := afterPublish_cases first w u mime data
  · rw [hsame] at hpublished
    cases hpublished
  · have hlength := hfirst.length_recipients u none
    rw [Option.bind_none] at hlength
    rw [htaken, Turn.sent, Group.deliveries_accept, hlength]
    exact ⟨hcur, flooding_start hfirst hquiet u .local⟩

/-- Without a user no more happens after a publication than three things for each frame. -/
theorem length_le_of_quiet (hfirst : Sound w c first) (hquiet : first.Quiet w) {t : Turn N}
    (ht : Step w c first t) (hpublish : t.move.isPublish = true) {ts : List (Turn N)}
    {last : Network N} (hrun : Run w c t.network ts last)
    (hts : ∀ t' ∈ ts, t'.move.isPublish = false) :
    ts.length ≤ 3 * (t.sent + sentDuring ts) := by
  have hbefore := hfirst.work_step ht
  have hafter := (sound_step hfirst ht).work_run hrun
  have hcount : ts.countP (fun t => !t.move.isPublish) = ts.length :=
    List.countP_eq_length.2 fun t' ht' => by simp [hts t' ht']
  rw [work_eq_zero hquiet, hpublish, if_pos rfl] at hbefore
  omega

/-- **Flooding.** In a connected network that is quiet and in which all nodes hold the same content
or none, a user publishes something that is not refused, and it gets a number. Whatever is written,
delivered and reported then, in whatever order:

* it is over after at most six steps for each edge, and as long as the network is not quiet
  there is a step to be made, so the network becomes quiet again;
* no update is dropped as stale;
* once the network is quiet, every node holds the content and has recorded it once, and nothing
  else; and the frames sent are twice the edges less the nodes but the first. -/
theorem update_floods_once (hconn : w.graph.Connected)
    (hreach : ∀ v, ∃ limit, Group.Reachable limit (first.group v)) (hjoined : first.Joined w)
    (hquiet : first.Quiet w)
    (hsame : ∀ v v', (first.group v).history.content = (first.group v').history.content)
    (u : N) (hok : c.checkContent mime data = .ok ()) {seq : Nat}
    (hpublished : (first.afterPublish w u mime data).published = some seq)
    {ts : List (Turn N)} {last : Network N}
    (hrun : Run w c (first.afterPublish w u mime data).network ts last)
    (hts : ∀ t ∈ ts, t.move.isPublish = false) :
    ts.length ≤ 6 * w.graph.edgeFinset.card ∧
      (¬ last.Quiet w → ∃ t, Step w c last t ∧ t.move.isPublish = false) ∧
      (∀ t ∈ ts, t.outcome ≠ some .stale) ∧
      (last.Quiet w →
        (∀ v, (last.group v).history.content = some (mime, data) ∧
          ∃ origin, (last.group v).history =
            ((first.group v).history.record mime data origin).2) ∧
        (first.afterPublish w u mime data).sent + sentDuring ts + (Fintype.card N - 1) =
          2 * w.graph.edgeFinset.card) := by
  have hfits := Codec.checkContent_eq_ok_iff.1 hok
  have hfirst : Sound w c first := sound_start hreach hjoined hquiet
  have hstep : Step w c first (first.afterPublish w u mime data) := .publish u hok
  have hsound := sound_step hfirst hstep
  obtain ⟨hcur, hflood⟩ := flooding_publish hfirst hquiet hpublished
  -- All nodes hold the same content at the start, so what is new to one is new to all.
  have hnew : ∀ v, (first.group v).history.isCurrent (.of mime data) = false := by
    intro v
    rw [History.isCurrent_eq (hfirst.honest v), hsame v u, ← History.isCurrent_eq (hfirst.honest u)]
    exact hcur
  obtain ⟨⟨S, hS⟩, hstale⟩ := flooding_run hsound hfirst hquiet hfits hnew hflood hrun hts
  refine ⟨?_, (sound_run hsound hrun).progress, hstale, fun hrest => ⟨fun v => ?_, ?_⟩⟩
  -- Every step does one piece of work, and the frames that are sent bound the work.
  · have hlength := length_le_of_quiet hfirst hquiet hstep rfl hrun hts
    have hsent := hS.sent_le
    omega
  · obtain ⟨origin, hrecord⟩ := hS.recorded v (by
      rw [hS.eq_univ hconn hrest]
      exact Finset.mem_univ v)
    refine ⟨?_, origin, hrecord⟩
    rw [hrecord]
    exact History.content_record (hfirst.honest v) mime data origin
  · have hcount := hS.count
    rw [hS.eq_univ hconn hrest, Finset.card_univ, w.graph.sum_degrees_eq_twice_card_edges] at hcount
    have hnodes : 0 < Fintype.card N := Fintype.card_pos_iff.2 ⟨u⟩
    omega

/-! ## Two nodes -/

/-- Two nodes, each with its session 0 to the other. -/
def pair : Wiring Bool where
  session u v := if u = v then none else some 0
  bothWays := by decide
  loopless := by decide
  distinct u v v' id h h' := by
    cases u <;> cases v <;> cases v' <;> simp at h h' ⊢

/-- A group whose one member is session 0. -/
def oneMember : Group :=
  (((Group.fresh 10).attach 0 (Group.dialedEntry Group.neighbour)).promote 0).group

/-- Two nodes before anything happens. -/
def pairAtRest : Network Bool := { group := fun _ => oneMember, line := fun _ _ => {} }

theorem reachable_oneMember : Group.Reachable 10 oneMember :=
  (Group.Reachable.attach .fresh rfl rfl).promote 0

theorem pair_connected : pair.graph.Connected where
  preconnected u v := by
    by_cases h : u = v
    · rw [h]
    · exact SimpleGraph.Adj.reachable (Wiring.adj_iff.2 ⟨0, if_neg h⟩)
  nonempty := ⟨true⟩

theorem pair_joined : pairAtRest.Joined pair := by
  intro u id
  rw [← Group.mem_memberSessions]
  show id ∈ [0] ↔ ∃ v, (if u = v then none else some 0) = some id
  rw [List.mem_singleton]
  constructor
  · rintro rfl
    exact ⟨!u, by simp⟩
  · rintro ⟨v, hv⟩
    split at hv
    · cases hv
    · exact (Option.some.inj hv).symm

theorem pair_session {u v : Bool} {id : SessionId} (h : pair.session u v = some id) : id = 0 := by
  cases u <;> cases v <;> cases h <;> rfl

theorem pair_quiet : pairAtRest.Quiet pair where
  lines _ _ := rfl
  settled u v id e hid he := by
    cases pair_session hid
    cases he
    rfl

/-- The frame that the first update of a node makes. -/
def pairFrame : Outgoing := pairAtRest.nextFrame false "text/plain" [7] .local

/-- The user of the first node publishes a text. -/
def pairPublish : Turn Bool := pairAtRest.afterPublish pair false "text/plain" [7]

def pairWrite : Turn Bool := pairPublish.network.afterWrite false true pairFrame

def pairDelivery : Turn Bool :=
  pairWrite.network.afterDelivery pair false true 0 "text/plain" [7]

def pairReport : Turn Bool := pairDelivery.network.afterReport false true 0 1

theorem pair_run :
    Run pair .default pairPublish.network [pairWrite, pairDelivery, pairReport]
      pairReport.network := by
  have hwrite : Step pair .default pairPublish.network pairWrite := .write rfl
  have hdelivery : Step pair .default pairWrite.network pairDelivery :=
    .deliver rfl rfl (Codec.decode_encode (by decide))
  have hreport : Step pair .default pairDelivery.network pairReport := .report rfl rfl
  exact ((Run.start.turn hwrite).turn hdelivery).turn hreport

theorem pairReport_quiet : pairReport.network.Quiet pair where
  lines u v := by
    cases u <;> cases v <;> exact rfl
  settled u v id e hid he := by
    cases pair_session hid
    cases u <;> cases he <;> rfl

/-- The other node holds the text when the two are at rest again, and one frame was sent. -/
theorem update_floods_once_pair :
    Run pair .default pairPublish.network [pairWrite, pairDelivery, pairReport]
        pairReport.network ∧
      pairReport.network.Quiet pair ∧
      (pairReport.network.group true).history.content = some ("text/plain", [7]) ∧
      pairPublish.sent + sentDuring [pairWrite, pairDelivery, pairReport] + 1 =
        2 * pair.graph.edgeFinset.card := by
  have hflood := update_floods_once (c := .default) pair_connected
    (fun _ => ⟨10, reachable_oneMember⟩) pair_joined pair_quiet (fun _ _ => rfl) false
    (Codec.checkContent_eq_ok_iff.2 (by decide)) rfl pair_run (by decide)
  obtain ⟨hcontent, hsent⟩ := hflood.2.2.2 pairReport_quiet
  exact ⟨pair_run, pairReport_quiet, (hcontent true).1, hsent⟩

end Network

end SharedClipboard
