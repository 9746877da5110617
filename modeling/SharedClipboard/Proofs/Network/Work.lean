import SharedClipboard.Proofs.Network.Sound
import Mathlib.Algebra.BigOperators.Ring.Finset
import Mathlib.Combinatorics.SimpleGraph.Finite

/-!
# How much happens in a network

**Theorem (`work_run`).** Between two moments of a run, the things that happened without a user are
three for each frame that was sent, less what is still to be done.

Each frame is written, delivered and reported, which is what `Line.work` counts. A node that takes
up a content sends one frame to each neighbour, but for the one it got the content from
(`length_recipients`), and each of them is new work (`work_spread`).
-/

namespace SharedClipboard

variable {N : Type}

instance (w : Wiring N) : DecidableRel w.graph.Adj :=
  fun u v => inferInstanceAs (Decidable ((w.session u v).isSome = true))

/-- What is still to be done on a line: a frame that waits has to be written, delivered and
reported. -/
def Line.work (l : Line) : Nat := 3 * l.outbox.length + l.wire.length + l.reports.length

variable [Fintype N] [DecidableEq N]

/-- The nodes to which a content is sent on. -/
def Wiring.onward (w : Wiring N) (u : N) (from? : Option N) : Finset N :=
  {b | w.graph.Adj u b ∧ some b ≠ from?}

theorem Wiring.mem_onward {w : Wiring N} {u b : N} {from? : Option N} :
    b ∈ w.onward u from? ↔ w.Onward u from? b := by
  simp [onward, Onward]

theorem Wiring.card_onward_none (w : Wiring N) (u : N) :
    (w.onward u none).card = w.graph.degree u := by
  rw [← SimpleGraph.card_neighborFinset_eq_degree, SimpleGraph.neighborFinset_eq_filter]
  simp [onward]

/-- A content that came from a neighbour goes on to one neighbour less. -/
theorem Wiring.card_onward_some {w : Wiring N} {u v : N} (h : w.graph.Adj v u) :
    (w.onward v (some u)).card + 1 = w.graph.degree v := by
  have herase : w.onward v (some u) = (w.onward v none).erase u := by
    ext b
    simp [onward, and_comm]
  rw [herase, ← w.card_onward_none, Finset.card_erase_add_one]
  exact Wiring.mem_onward.2 ⟨h, by simp⟩

namespace Network

variable {w : Wiring N} {c : Codec} {n : Network N}

/-- The node sends a content once to each node that it is sent on to. -/
theorem Sound.length_recipients (h : Sound w c n) (u : N) (from? : Option N) :
    ((n.group u).recipients (fun _ => .free) (from?.bind (w.session u))).length =
      (w.onward u from?).card := by
  rw [← List.toFinset_card_of_nodup ((h.inStep u).nodup_recipients _ _)]
  refine (Finset.card_bij (fun b _ => (w.session u b).getD 0) (fun b hb => ?_)
    (fun b hb b' hb' heq => ?_) fun id hmem => ?_).symm
  · obtain ⟨id, hid⟩ := Wiring.adj_iff.1 (Wiring.mem_onward.1 hb).1
    rw [List.mem_toFinset, hid]
    exact (h.mem_recipients hid from?).2 (Wiring.mem_onward.1 hb)
  · obtain ⟨id, hid⟩ := Wiring.adj_iff.1 (Wiring.mem_onward.1 hb).1
    obtain ⟨id', hid'⟩ := Wiring.adj_iff.1 (Wiring.mem_onward.1 hb').1
    rw [hid, hid'] at heq
    exact w.distinct u b b' id hid (hid'.trans (congrArg some heq.symm))
  · rw [List.mem_toFinset] at hmem
    obtain ⟨b, hb⟩ := (h.joined u id).1 ((h.inStep u).mem_recipients.1 hmem).1
    exact ⟨b, Wiring.mem_onward.2 ((h.mem_recipients hb from?).1 hmem), by rw [hb]; rfl⟩

omit [DecidableEq N] in
/-- What is still to be done in a network. -/
def work (n : Network N) : Nat := ∑ u, ∑ v, (n.line u v).work

theorem work_onLine (n : Network N) (u v : N) {f : Line → Line} {k : Nat}
    (hk : (f (n.line u v)).work + k = (n.line u v).work) : (n.onLine u v f).work + k = n.work := by
  have hpoint : ∀ a b, ((n.onLine u v f).line a b).work +
      (if a = u then if b = v then k else 0 else 0) = (n.line a b).work := by
    intro a b
    rw [line_onLine]
    by_cases ha : a = u
    · by_cases hb : b = v
      · subst ha hb
        simpa using hk
      · simp [hb]
    · simp [ha]
  simp only [work, ← hpoint, Finset.sum_add_distrib, Finset.sum_ite_irrel,
    Finset.sum_const_zero, Finset.sum_ite_eq', Finset.mem_univ, if_true]

theorem Sound.work_spread (h : Sound w c n) (u : N) (mime : String) (data : Bytes)
    (origin : Origin) (from? : Option N) :
    (n.spread w u mime data origin from?).work = n.work + 3 * (w.onward u from?).card := by
  -- Every frame that is sent makes work for three steps on its line.
  have hpoint : ∀ a b, ((n.spread w u mime data origin from?).line a b).work =
      (n.line a b).work + if a = u then if b ∈ w.onward u from? then 3 else 0 else 0 := by
    intro a b
    by_cases ha : a = u
    · subst ha
      by_cases hb : b ∈ w.onward a from?
      · rw [h.line_spread_of_onward (Wiring.mem_onward.1 hb), if_pos rfl, if_pos hb]
        simp only [Line.work, Line.queue, List.length_append, List.length_singleton]
        omega
      · rw [h.line_spread_of_not fun hon => hb (Wiring.mem_onward.2 hon.2), if_pos rfl, if_neg hb]
        rfl
    · rw [h.line_spread_of_not fun hon => ha hon.1, if_neg ha]
      rfl
  simp only [work, hpoint, Finset.sum_add_distrib, Finset.sum_ite_irrel, Finset.sum_const_zero,
    Finset.sum_ite_eq', Finset.mem_univ, if_true, Finset.sum_ite_mem, Finset.univ_inter,
    Finset.sum_const, smul_eq_mul, Nat.mul_comm]

/-- What happens without a user is work that is done, and every frame that is sent is new work. -/
theorem Sound.work_step (h : Sound w c n) {t : Turn N} (hs : Step w c n t) :
    t.network.work + (if t.move.isPublish then 0 else 1) = n.work + 3 * t.sent := by
  cases hs with
  | publish u hok =>
    rename_i mime data
    obtain ⟨-, hsame⟩ | ⟨-, htaken⟩ := afterPublish_cases n w u mime data
    · rw [hsame]
      rfl
    · have hlength := h.length_recipients u none
      rw [Option.bind_none] at hlength
      rw [htaken, Turn.sent, Group.deliveries_accept, hlength]
      exact h.work_spread u mime data .local none
  | write hx =>
    rename_i u v x
    obtain ⟨xs, hxs⟩ := List.head?_eq_some_iff.1 hx
    obtain ⟨seq, hseq⟩ := Option.isSome_iff_exists.1
      (h.proper.outboxes u v x (by simp [hxs])).2
    have hwritten : (n.onLine u v (·.written x)).work + 1 = n.work := by
      refine work_onLine n u v ?_
      simp only [Line.work, Line.written, hxs, hseq, List.tail_cons, List.length_cons,
        List.length_append, Option.toList_some, List.length_nil]
      omega
    exact hwritten
  | deliver hid hframe hdecode =>
    rename_i u v id frame mime data
    obtain ⟨rest, hrest⟩ := List.head?_eq_some_iff.1 hframe
    have hread : (n.onLine u v Line.read).work + 1 = n.work := by
      refine work_onLine n u v ?_
      simp only [Line.work, Line.read, hrest, List.tail_cons, List.length_cons]
      omega
    obtain ⟨hsame, hnone⟩ | ⟨origin, htaken, heffects⟩ := afterDelivery_cases n hid mime data
    · rw [Turn.sent, hnone, hsame]
      exact hread
    · have hlength := h.length_recipients v (some u)
      rw [Option.bind_some, hid] at hlength
      rw [Turn.sent, heffects, Group.deliveries_accept, hlength, htaken,
        (h.read u v).work_spread, ← hread]
      exact Nat.add_right_comm _ _ _
  | report hid hseq =>
    rename_i u v id seq
    obtain ⟨rest, hrest⟩ := List.head?_eq_some_iff.1 hseq
    have hreported : (n.onLine u v Line.reported).work + 1 = n.work := by
      refine work_onLine n u v ?_
      simp only [Line.work, Line.reported, hrest, List.tail_cons, List.length_cons]
      omega
    exact hreported

/-- **Work.** What happened without a user and what is still to be done are three things for each
frame that was sent. -/
theorem Sound.work_run (h : Sound w c n) {ts : List (Turn N)} {last : Network N}
    (hrun : Run w c n ts last) :
    last.work + ts.countP (fun t => !t.move.isPublish) = n.work + 3 * sentDuring ts := by
  induction hrun with
  | start => simp [sentDuring]
  | @turn ts n' t hrun hs ih =>
    have hstep := (sound_run h hrun).work_step hs
    rw [sentDuring_snoc, List.countP_append, List.countP_singleton]
    cases hmove : t.move.isPublish <;> simp [hmove] at hstep ⊢ <;> omega

omit [DecidableEq N] in
theorem work_eq_zero (h : n.Quiet w) : n.work = 0 := by
  refine Finset.sum_eq_zero fun u _ => Finset.sum_eq_zero fun v _ => ?_
  rw [h.lines u v]
  rfl

end Network

end SharedClipboard
