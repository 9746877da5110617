import SharedClipboard.Proofs.Network.Crowded
import SharedClipboard.Proofs.Network.Flood
import SharedClipboard.Proofs.Network.Play
import Mathlib.Algebra.Order.BigOperators.Group.Finset
import Mathlib.Combinatorics.SimpleGraph.Acyclic

/-!
# How often an update is recorded

**Theorem (`recorded_le_publications`).** If no cycle of connections exists, or if every content is
published when no frame is under way, then no node ever records more updates than were published in
the whole network.

*Without cycles.* Fix a node `v`. Every other node has one neighbour on its way to `v`
(`Wiring.Leads`), and what counts is the number of updates that `v` has recorded plus the number of
frames that are on their way toward `v` (`Bounded`). A content that is published adds one to it: at
`v` a recorded update, elsewhere one frame toward `v`. A frame that is taken up on its way becomes
the next frame toward `v` or a recorded update of `v`. A frame that comes from the direction of `v`
is sent on to the other neighbours only, away from `v`.

*One content at a time.* All frames carry the content that was published last (`Single`), and a node
that has recorded it drops it from then on.

With a cycle and two contents under way at once this fails: three nodes that are all connected pass
two contents around, and each is new to a node that holds the other (`triangle_passes_around`).
-/

namespace SharedClipboard

variable {N : Type}

/-! ## The way to a node -/

/-- The neighbour of each node on the way to `v`, if there is a way: of two neighbours one is on the
way of the other. -/
structure Wiring.Leads (w : Wiring N) (v : N) (toward : N → Option N) : Prop where
  root : toward v = none
  edge : ∀ {x y : N}, w.graph.Adj x y →
    toward y = some x ∨ x ≠ v ∧ (toward x = some y ∨ toward x = none)

/-- Without cycles there is one path to `v` only, and the neighbour is its second node. -/
theorem Wiring.exists_leads {w : Wiring N} (h : w.graph.IsAcyclic) (v : N) :
    ∃ toward, w.Leads v toward := by
  classical
  refine ⟨fun x => if hx : w.graph.Reachable x v ∧ x ≠ v then
    some (hx.1.some.toPath : w.graph.Walk x v).snd else none, by simp, fun {x y} hadj => ?_⟩
  by_cases hx : w.graph.Reachable x v
  · have hy : w.graph.Reachable y v := hadj.symm.reachable.trans hx
    -- Without cycles there is one path to `v`, which every edge is on from one of its ends.
    have hq := hy.some.toPath.2
    by_cases hxv : x = v
    · subst hxv
      left
      rw [dif_pos ⟨hy, hadj.ne.symm⟩]
      exact congrArg some
        (h.eq_snd_of_adj_start hq hadj.symm (SimpleGraph.Walk.end_mem_support _)).symm
    · have hp := hx.some.toPath.2
      by_cases hmem : y ∈ (hx.some.toPath : w.graph.Walk x v).support
      · refine .inr ⟨hxv, .inl ?_⟩
        rw [dif_pos ⟨hx, hxv⟩]
        exact congrArg some (h.eq_snd_of_adj_start hp hadj hmem).symm
      · -- The path of `y` is the one of `x` with `y` in front.
        have hyv : y ≠ v := by
          intro heq
          rw [heq] at hmem
          exact hmem (SimpleGraph.Walk.end_mem_support _)
        have hpath : hy.some.toPath = ⟨_, hp.cons (h := hadj.symm) hmem⟩ :=
          (h.subsingleton_path y v).elim _ _
        left
        rw [dif_pos ⟨hy, hyv⟩, hpath]
        simp
  · refine .inr ⟨fun heq => hx (heq ▸ SimpleGraph.Reachable.refl _), .inr ?_⟩
    rw [dif_neg fun hboth => hx hboth.1]

namespace Network

variable [DecidableEq N] {w : Wiring N} {c : Codec} {first n n' : Network N}

/-! ## Counting -/

def recorded (n : Network N) (u : N) : Nat := (n.group u).history.nextSeq - 1

/-- The number of contents that users published and that got a number. -/
def publications (ts : List (Turn N)) : Nat := ts.countP fun t => t.published.isSome

omit [DecidableEq N] in
theorem publications_snoc (ts : List (Turn N)) (t : Turn N) :
    publications (ts ++ [t]) = publications ts + if t.published.isSome then 1 else 0 := by
  rw [publications, List.countP_append, List.countP_singleton]
  rfl

theorem nextSeq_crowdedSpread (n : Network N) (w : Wiring N) (room : SessionId → Room) (u : N)
    (mime : String) (data : Bytes) (origin : Origin) (from? : Option N) (a : N) :
    ((n.crowdedSpread w room u mime data origin from?).group a).history.nextSeq =
      (n.group a).history.nextSeq + if a = u then 1 else 0 := by
  rw [history_crowdedSpread]
  by_cases ha : a = u
  · subst ha
    simp [History.record]
  · simp [ha]

/-! ## Frames on the way to a node -/

/-- The number of frames that a node has under way toward `v`. -/
def pending (n : Network N) (toward : N → Option N) (x : N) : Nat :=
  match toward x with
  | none => 0
  | some b => (n.line x b).load

variable {toward : N → Option N} {v : N}

omit [DecidableEq N] in
theorem pending_mono (h : ∀ a b, (n'.line a b).load ≤ (n.line a b).load) (x : N) :
    n'.pending toward x ≤ n.pending toward x := by
  unfold pending
  split
  · exact Nat.le_refl 0
  · exact h _ _

theorem load_onLine_le {u b : N} {f : Line → Line} (h : (f (n.line u b)).load ≤ (n.line u b).load)
    (x y : N) : ((n.onLine u b f).line x y).load ≤ (n.line x y).load := by
  rw [line_onLine]
  split
  · rename_i hxy
    obtain ⟨rfl, rfl⟩ := hxy
    exact h
  · exact Nat.le_refl _

theorem pending_read {x y : N} {frame : Bytes} (hframe : (n.line y x).wire.head? = some frame)
    (hy : toward y = some x) :
    (n.onLine y x Line.read).pending toward y + 1 = n.pending toward y := by
  simp only [pending, hy, line_onLine, and_self, if_true]
  exact Line.load_read hframe

/-- A node that takes up a content sends it on toward `v`, unless it came from there. -/
theorem Orderly.pending_crowdedSpread_le (h : n.Orderly) (room : SessionId → Room) (u : N)
    (mime : String) (data : Bytes) (origin : Origin) (from? : Option N) (x : N) :
    (n.crowdedSpread w room u mime data origin from?).pending toward x ≤ n.pending toward x +
      if x = u then if toward u = none ∨ toward u = from? then 0 else 1 else 0 := by
  unfold pending
  cases hx : toward x with
  | none => exact Nat.zero_le _
  | some b =>
    obtain hsame | ⟨rfl, hback, hline⟩ :=
      h.line_crowdedSpread w room u mime data origin from? x b
    · simp only [hsame]
      exact Nat.le_add_right _ _
    · simp [hline, Line.load_queue, hx, hback]

variable (toward) in
theorem Orderly.sum_pending_crowdedSpread_le (h : n.Orderly) (room : SessionId → Room) (u : N)
    (mime : String) (data : Bytes) (origin : Origin) (from? : Option N) (S : Finset N) :
    ∑ x ∈ S, (n.crowdedSpread w room u mime data origin from?).pending toward x ≤
      ∑ x ∈ S, n.pending toward x + if toward u = none ∨ toward u = from? then 0 else 1 := by
  calc ∑ x ∈ S, (n.crowdedSpread w room u mime data origin from?).pending toward x
      ≤ ∑ x ∈ S, (n.pending toward x +
          if x = u then if toward u = none ∨ toward u = from? then 0 else 1 else 0) :=
        Finset.sum_le_sum fun x _ => h.pending_crowdedSpread_le room u mime data origin from? x
    _ ≤ _ := by
        rw [Finset.sum_add_distrib, Finset.sum_ite_eq']
        refine Nat.add_le_add_left ?_ _
        split
        · exact Nat.le_refl _
        · exact Nat.zero_le _

theorem sum_pending_read {x y : N} {frame : Bytes} (S : Finset N)
    (hframe : (n.line y x).wire.head? = some frame) (hy : toward y = some x) :
    ∑ a ∈ S, (n.onLine y x Line.read).pending toward a + 1 ≤
      ∑ a ∈ insert y S, n.pending toward a := by
  -- Only what `y` has under way gets less, so `y` is counted by itself.
  have hmono : ∀ a, (n.onLine y x Line.read).pending toward a ≤ n.pending toward a :=
    pending_mono (load_onLine_le (Nat.le_of_lt (Line.load_read hframe).le))
  have hrest : ∑ a ∈ S.erase y, (n.onLine y x Line.read).pending toward a ≤
      ∑ a ∈ S.erase y, n.pending toward a := Finset.sum_le_sum fun a _ => hmono a
  have hinsert : ∑ a ∈ insert y S, n.pending toward a =
      n.pending toward y + ∑ a ∈ S.erase y, n.pending toward a := by
    rw [← Finset.insert_erase (Finset.mem_insert_self y S), Finset.erase_insert_eq_erase,
      Finset.sum_insert (Finset.notMem_erase y S)]
  have hle : ∑ a ∈ S, (n.onLine y x Line.read).pending toward a ≤
      (n.onLine y x Line.read).pending toward y +
        ∑ a ∈ S.erase y, (n.onLine y x Line.read).pending toward a := by
    rw [← Finset.sum_insert (Finset.notMem_erase y S), ← Finset.erase_insert_eq_erase,
      Finset.insert_erase (Finset.mem_insert_self y S)]
    exact Finset.sum_le_sum_of_subset (Finset.subset_insert y S)
  have hone := pending_read hframe hy
  omega

/-! ## Networks without cycles -/

/-- What `v` has recorded and what is on its way toward `v` were published. -/
def Bounded (toward : N → Option N) (v : N) (k : Nat) (n : Network N) : Prop :=
  ∀ S : Finset N, (n.group v).history.nextSeq + ∑ x ∈ S, n.pending toward x ≤ k + 1

omit [DecidableEq N] in
theorem Bounded.of_le {k : Nat} (h : Bounded toward v k n)
    (hseq : (n'.group v).history.nextSeq = (n.group v).history.nextSeq)
    (hload : ∀ a b, (n'.line a b).load ≤ (n.line a b).load) : Bounded toward v k n' := by
  intro S
  have hsum : ∑ x ∈ S, n'.pending toward x ≤ ∑ x ∈ S, n.pending toward x :=
    Finset.sum_le_sum fun x _ => pending_mono hload x
  have hold := h S
  rw [hseq]
  omega

theorem Bounded.published {k : Nat} (h : Bounded toward v k n) (horderly : n.Orderly)
    (hroot : toward v = none) (room : SessionId → Room) (u : N) (mime : String) (data : Bytes)
    (origin : Origin) :
    Bounded toward v (k + 1) (n.crowdedSpread w room u mime data origin none) := by
  intro S
  have hsum := horderly.sum_pending_crowdedSpread_le (w := w) toward room u mime data
    origin none S
  have hold := h S
  rw [nextSeq_crowdedSpread]
  by_cases hu : v = u
  · subst hu
    simp only [hroot, true_or, if_true] at hsum ⊢
    omega
  · rw [if_neg hu]
    split at hsum <;> omega

theorem Bounded.taken {k : Nat} (h : Bounded toward v k n) (horderly : n.Orderly)
    (hleads : w.Leads v toward) (room : SessionId → Room) {x y : N} (hadj : w.graph.Adj x y)
    {frame : Bytes} (hframe : (n.line y x).wire.head? = some frame) (mime : String) (data : Bytes)
    (origin : Origin) :
    Bounded toward v k
      ((n.onLine y x Line.read).crowdedSpread w room x mime data origin (some y)) := by
  -- The bound is one for every set of nodes, because a frame that moves on changes the set.
  intro S
  have hread := horderly.onLine y x Line.read
  have hsum := hread.sum_pending_crowdedSpread_le (w := w) toward room x mime data
    origin (some y) S
  rw [nextSeq_crowdedSpread]
  show (n.group v).history.nextSeq + _ + _ ≤ k + 1
  obtain hy | ⟨hxv, hx⟩ := hleads.edge hadj
  · -- The frame was on its way toward `v`.
    have hless := sum_pending_read S hframe hy
    have hold := h (insert y S)
    by_cases hx : v = x
    · subst hx
      simp only [hleads.root, true_or, if_true] at hsum ⊢
      omega
    · rw [if_neg hx]
      split at hsum <;> omega
  · -- The frame came from the direction of `v`.
    have hmono : ∑ a ∈ S, (n.onLine y x Line.read).pending toward a ≤
        ∑ a ∈ S, n.pending toward a := Finset.sum_le_sum fun a _ =>
      pending_mono (load_onLine_le (Nat.le_of_lt (Line.load_read hframe).le)) a
    have hold := h S
    rw [if_pos hx.symm] at hsum
    rw [if_neg (Ne.symm hxv)]
    omega

theorem Bounded.change {k : Nat} {p : Bool} (h : Bounded toward v k n) (horderly : n.Orderly)
    (hleads : w.Leads v toward) (hc : Change w c n n' p) :
    Bounded toward v (k + if p then 1 else 0) n' := by
  cases hc with
  | nothing => exact h
  | published room u _ _ => exact h.published horderly hleads.root room u _ _ _
  | written hx => exact h.of_le rfl (load_onLine_le (Line.load_written hx).le)
  | dropped hframe => exact h.of_le rfl (load_onLine_le (Nat.le_of_lt (Line.load_read hframe).le))
  | taken room origin hid hframe _ _ =>
    exact h.taken horderly hleads room (Wiring.adj_iff.2 ⟨_, hid⟩) hframe _ _ origin
  | reported u b id seq =>
    have hload : ((n.line u b).reported).load ≤ (n.line u b).load := Nat.le_refl _
    exact h.of_le (congrArg History.nextSeq (history_afterReport n u b id seq v))
      (load_onLine_le hload)

/-! ## One content at a time -/

/-- No frame waits or is on the way. -/
def Still (n : Network N) : Prop := ∀ a b, (n.line a b).load = 0

omit [DecidableEq N] in
theorem Still.of_le (h : n.Still) (hload : ∀ a b, (n'.line a b).load ≤ (n.line a b).load) :
    n'.Still :=
  fun a b => Nat.le_zero.1 (h a b ▸ hload a b)

omit [DecidableEq N] in
theorem Still.nil (h : n.Still) (a b : N) : (n.line a b).outbox = [] ∧ (n.line a b).wire = [] := by
  have hline := h a b
  rw [Line.load, Nat.add_eq_zero_iff, List.length_eq_zero_iff, List.length_eq_zero_iff] at hline
  exact hline

/-- After `k` publications nothing is under way, or every frame carries one content, which a node
has if it has recorded as many updates as were published. -/
structure Single (c : Codec) (k : Nat) (n : Network N) : Prop where
  bounded : ∀ a, (n.group a).history.nextSeq ≤ k + 1
  content : n.Still ∨ ∃ mime data, c.Fits (.syncRequest mime data) ∧
    Frames (fun x => x.frame = (Packet.syncRequest mime data).encode)
      (· = (Packet.syncRequest mime data).encode) n.line ∧
    ∀ a, (n.group a).history.nextSeq ≤ k ∨ (n.group a).history.isCurrent (.of mime data) = true

theorem Orderly.has_crowdedSpread {k : Nat} {mime : String} {data : Bytes} (h : n.Orderly)
    (room : SessionId → Room) (u : N) (origin : Origin) (from? : Option N)
    (hothers : ∀ a, a ≠ u → (n.group a).history.nextSeq ≤ k ∨
      (n.group a).history.isCurrent (.of mime data) = true) (a : N) :
    ((n.crowdedSpread w room u mime data origin from?).group a).history.nextSeq ≤ k ∨
      ((n.crowdedSpread w room u mime data origin from?).group a).history.isCurrent
        (.of mime data) = true := by
  rw [history_crowdedSpread]
  by_cases ha : a = u
  · rw [if_pos ha]
    exact .inr (History.isCurrent_record (h.honest u) mime data origin)
  · rw [if_neg ha]
    exact hothers a ha

theorem Single.published {k : Nat} (h : Single c k n) (horderly : n.Orderly) (hstill : n.Still)
    (room : SessionId → Room) (u : N) {mime : String} {data : Bytes}
    (hfits : c.Fits (.syncRequest mime data)) (origin : Origin) :
    Single c (k + 1) (n.crowdedSpread w room u mime data origin none) where
  bounded a := by
    have hold := h.bounded a
    rw [nextSeq_crowdedSpread]
    split <;> omega
  content := by
    have hframes : Frames (fun x => x.frame = (Packet.syncRequest mime data).encode)
        (· = (Packet.syncRequest mime data).encode) n.line :=
      ⟨fun a b x hx => by simp [(hstill.nil a b).1] at hx,
        fun a b f hf => by simp [(hstill.nil a b).2] at hf⟩
    exact .inr ⟨mime, data, hfits, horderly.frames_crowdedSpread hframes w room u rfl none,
      horderly.has_crowdedSpread room u origin none fun a _ => .inl (h.bounded a)⟩

theorem Single.taken {k : Nat} (h : Single c k n) (horderly : n.Orderly)
    (room : SessionId → Room) {x y : N} {frame : Bytes} {mime : String} {data : Bytes}
    (hframe : (n.line y x).wire.head? = some frame)
    (hdecode : c.decode frame = .ok (.syncRequest mime data))
    (hnew : (n.group x).history.isCurrent (.of mime data) = false) (origin : Origin) :
    Single c k ((n.onLine y x Line.read).crowdedSpread w room x mime data origin (some y)) := by
  obtain hstill | ⟨mime', data', hfits, hframes, hhas⟩ := h.content
  · simp [(hstill.nil y x).2] at hframe
  · -- The frame carries the one content, and the node does not have it.
    rw [hframes.wires y x frame (List.mem_of_mem_head? hframe),
      Codec.decode_encode hfits] at hdecode
    cases hdecode
    have hread := horderly.onLine y x Line.read
    refine ⟨fun a => ?_, .inr ⟨mime, data, hfits,
      hread.frames_crowdedSpread (hframes.read y x) w room x rfl (some y),
      hread.has_crowdedSpread room x origin (some y) fun a _ => hhas a⟩⟩
    rw [nextSeq_crowdedSpread]
    show (n.group a).history.nextSeq + _ ≤ k + 1
    by_cases ha : a = x
    · subst ha
      obtain hless | hcur := hhas a
      · simpa using hless
      · rw [hnew] at hcur
        cases hcur
    · rw [if_neg ha]
      exact h.bounded a

theorem Single.change {k : Nat} {p : Bool} (h : Single c k n) (horderly : n.Orderly)
    (hc : Change w c n n' p) (hrest : p = true → n.Still) :
    Single c (k + if p then 1 else 0) n' := by
  -- Only a publication brings another content, and it comes when nothing is under way.
  cases hc with
  | nothing => exact h
  | published room u hfits _ => exact h.published horderly (hrest rfl) room u hfits _
  | written hx =>
    refine ⟨h.bounded,
      h.content.imp (fun hstill => ?_) fun ⟨mime, data, hfits, hframes, hhas⟩ => ?_⟩
    · exact hstill.of_le (load_onLine_le (Line.load_written hx).le)
    · exact ⟨mime, data, hfits, hframes.write hx id, hhas⟩
  | dropped hframe =>
    refine ⟨h.bounded,
      h.content.imp (fun hstill => ?_) fun ⟨mime, data, hfits, hframes, hhas⟩ => ?_⟩
    · exact hstill.of_le (load_onLine_le (Nat.le_of_lt (Line.load_read hframe).le))
    · exact ⟨mime, data, hfits, hframes.read _ _, hhas⟩
  | taken room origin _ hframe hdecode hnew =>
    exact h.taken horderly room hframe hdecode hnew origin
  | reported u b id seq =>
    have hload : ((n.line u b).reported).load ≤ (n.line u b).load := Nat.le_refl _
    refine ⟨fun a => ?_, h.content.imp (fun hstill => hstill.of_le (load_onLine_le hload))
      fun ⟨mime, data, hfits, hframes, hhas⟩ =>
        ⟨mime, data, hfits, hframes.report u b, fun a => ?_⟩⟩
    · rw [history_afterReport]
      exact h.bounded a
    · rw [history_afterReport]
      exact hhas a

/-! ## Every run -/

def latest (first : Network N) (ts : List (Turn N)) : Network N :=
  (ts.getLast?.map (·.network)).getD first

/-- Every content that got a number was published when no frame was under way. -/
def PublishedAtRest (first : Network N) (ts : List (Turn N)) : Prop :=
  ∀ before t after, ts = before ++ t :: after → t.published.isSome → (latest first before).Still

omit [DecidableEq N] in
theorem PublishedAtRest.init {ts : List (Turn N)} {t : Turn N}
    (h : PublishedAtRest first (ts ++ [t])) : PublishedAtRest first ts :=
  fun before t' after heq => h before t' (after ++ [t]) (by simp [heq])

theorem latest_of_run {ts : List (Turn N)} {last : Network N}
    (hrun : CrowdedRun w c first ts last) :
    latest first ts = last := by
  cases hrun with
  | start => rfl
  | turn _ _ => simp [latest]

theorem bounded_run (hleads : w.Leads v toward) (horderly : first.Orderly)
    (hstill : first.Still) (hempty : (first.group v).history.nextSeq = 1) {ts : List (Turn N)}
    {last : Network N} (hrun : CrowdedRun w c first ts last) :
    Bounded toward v (publications ts) last := by
  induction hrun with
  | start =>
    intro S
    have hnone : ∀ x ∈ S, first.pending toward x = 0 := by
      intro x _
      unfold pending
      split
      · rfl
      · exact hstill x _
    rw [Finset.sum_eq_zero hnone, hempty]
    exact Nat.le_refl _
  | turn hbefore hs ih =>
    rw [publications_snoc]
    exact ih.change (orderly_run horderly hbefore) hleads hs.change

theorem single_run (horderly : first.Orderly) (hstill : first.Still)
    (hempty : ∀ a, (first.group a).history.nextSeq = 1) {ts : List (Turn N)} {last : Network N}
    (hrun : CrowdedRun w c first ts last) (hrest : PublishedAtRest first ts) :
    Single c (publications ts) last := by
  induction hrun with
  | start => exact ⟨fun a => (hempty a).le, .inl hstill⟩
  | turn hbefore hs ih =>
    rw [publications_snoc]
    refine (ih hrest.init).change (orderly_run horderly hbefore) hs.change fun hp => ?_
    rw [← latest_of_run hbefore]
    exact hrest _ _ [] rfl hp

/-- **Recorded at most once.** In a network of which the histories and the lines are empty at the
start, with any room in the outboxes: if its connections make no cycle, or if every content is
published when no frame is under way, then no node has recorded more updates than were published in
the whole network so far. -/
theorem recorded_le_publications (hreach : ∀ a, ∃ limit, Group.Reachable limit (first.group a))
    (hempty : ∀ a, ∃ limit, (first.group a).history = .fresh limit)
    (hlines : ∀ a b, (first.line a b).Empty) {ts : List (Turn N)} {last : Network N}
    (hrun : CrowdedRun w c first ts last)
    (hcalm : w.graph.IsAcyclic ∨ PublishedAtRest first ts) (u : N) :
    last.recorded u ≤ publications ts := by
  have horderly := orderly_of_reachable hreach
  have hstill : first.Still := fun a b => by
    rw [hlines a b]
    rfl
  have hseq : ∀ a, (first.group a).history.nextSeq = 1 := fun a => by
    obtain ⟨limit, hlimit⟩ := hempty a
    rw [hlimit]
    rfl
  have hbound : (last.group u).history.nextSeq ≤ publications ts + 1 := by
    -- Without cycles the frames toward `u` are counted; at rest there is one content at a time.
    obtain hacyclic | hrest := hcalm
    · obtain ⟨toward, hleads⟩ := Wiring.exists_leads hacyclic u
      have hsum := bounded_run hleads horderly hstill (hseq u) hrun ∅
      simpa using hsum
    · exact (single_run horderly hstill hseq hrun hrest).bounded u
  rw [recorded]
  omega

/-! ## Two contents under way -/

/-- Both users publish before either of them hears of the other. -/
def pairCrossing : List (Move Bool) :=
  [.publish false "text/plain" [1], .publish true "text/plain" [2], .write false true,
    .write true false, .report false true, .report true false, .deliver false true,
    .deliver true false]

/-- Two nodes take up each other's content, and record both that were published. -/
theorem recorded_le_publications_pair : ∃ ts last, CrowdedRun pair .default pairAtRest ts last ∧
    publications ts = 2 ∧ (last.recorded true = 2 ∧ last.recorded false = 2) ∧
    last.recorded true ≤ publications ts := by
  have hplay : (play pair .default pairAtRest pairCrossing).map
      (fun r => (publications r.1, r.2.recorded true, r.2.recorded false)) = some (2, 2, 2) := by
    decide +kernel
  obtain ⟨⟨ts, last⟩, hr, hcounts⟩ := Option.map_eq_some_iff.1 hplay
  simp only [Prod.mk.injEq] at hcounts
  have hrun := (run_of_play hr).crowded
  have hreach : ∀ a, ∃ limit, Group.Reachable limit (pairAtRest.group a) :=
    fun _ => ⟨10, reachable_oneMember⟩
  have hempty : ∀ a, ∃ limit, (pairAtRest.group a).history = .fresh limit := fun _ => ⟨10, rfl⟩
  have hlines : ∀ a b, (pairAtRest.line a b).Empty := fun _ _ => rfl
  have hacyclic : pair.graph.IsAcyclic := SimpleGraph.IsAcyclic.of_card_le_two (by simp)
  exact ⟨ts, last, hrun, hcounts.1, hcounts.2,
    recorded_le_publications hreach hempty hlines hrun (.inl hacyclic) true⟩

/-- Three nodes, each connected with the two others. The session with a node has its number. -/
def triangle : Wiring (Fin 3) where
  session u v := if u = v then none else some v
  bothWays := by decide
  loopless := by decide
  distinct u v v' id h h' := by
    split at h <;> split at h' <;> grind

/-- The device at the other end of a session. -/
def deviceOf (id : SessionId) : Device := { Group.neighbour with name := toString id }

def twoMembers (i j : SessionId) : Group :=
  ((((Group.fresh 10).attach i (Group.dialedEntry (deviceOf i))).promote i).group.attach j
    (Group.dialedEntry (deviceOf j)) |>.promote j).group

/-- Three nodes before anything happens. -/
def triangleAtRest : Network (Fin 3) where
  group
    | 0 => twoMembers 1 2
    | 1 => twoMembers 0 2
    | 2 => twoMembers 0 1
  line _ _ := {}

theorem reachable_triangle (u : Fin 3) : Group.Reachable 10 (triangleAtRest.group u) := by
  fin_cases u <;>
    exact ((Group.Reachable.attach ((Group.Reachable.attach .fresh rfl rfl).promote _) rfl
      rfl).promote _)

theorem triangle_joined : triangleAtRest.Joined triangle := by
  intro u id
  rw [← Group.mem_memberSessions]
  fin_cases u
  · show id ∈ [1, 2] ↔ ∃ v : Fin 3, (if 0 = v then none else some v.val) = some id
    simp [Fin.exists_fin_succ, eq_comm]
  · show id ∈ [0, 2] ↔ ∃ v : Fin 3, (if 1 = v then none else some v.val) = some id
    simp [Fin.exists_fin_succ, eq_comm]
  · show id ∈ [0, 1] ↔ ∃ v : Fin 3, (if 2 = v then none else some v.val) = some id
    simp [Fin.exists_fin_succ, eq_comm]

theorem triangle_quiet : triangleAtRest.Quiet triangle where
  lines _ _ := rfl
  settled u v id e hid he := by
    fin_cases u <;> fin_cases v <;> cases hid <;> cases he <;> rfl

/-- The first node publishes one content and the second another. The third takes up both in turn,
and then the first one again, which the second took up from the first in the meantime. -/
def triangleRound : List (Move (Fin 3)) :=
  [.publish 0 "text/plain" [1], .publish 1 "text/plain" [2], .write 0 2, .deliver 0 2, .write 2 1,
    .report 2 1, .write 1 2, .deliver 1 2, .write 1 0, .report 1 0, .write 0 1, .deliver 0 1,
    .write 1 2, .deliver 1 2]

/-- **Two contents go round a cycle.** Two contents are published in a triangle, and a node records
three updates. -/
theorem triangle_passes_around :
    (∀ u, Group.Reachable 10 (triangleAtRest.group u)) ∧ triangleAtRest.Joined triangle ∧
      triangleAtRest.Quiet triangle ∧ (∀ u, (triangleAtRest.group u).history = .fresh 10) ∧
      ∃ ts last, Run triangle .default triangleAtRest ts last ∧ publications ts = 2 ∧
        last.recorded 2 = 3 := by
  have hplay : (play triangle .default triangleAtRest triangleRound).map
      (fun r => (publications r.1, r.2.recorded 2)) = some (2, 3) := by
    decide +kernel
  obtain ⟨⟨ts, last⟩, hr, hcounts⟩ := Option.map_eq_some_iff.1 hplay
  simp only [Prod.mk.injEq] at hcounts
  refine ⟨reachable_triangle, triangle_joined, triangle_quiet, fun u => ?_, ts, last,
    run_of_play hr, hcounts⟩
  fin_cases u <;> rfl

end Network

end SharedClipboard
